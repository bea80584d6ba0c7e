import Upxz.Cli.RoundTrip
import Upxz.Loader.Runs
import Upxz.Stub.Process
import Upxz.Winstub.Run

/-!
# Cli - Running a packed file

A packed file is a program: started on its own system, it starts the packed original under
the stored name and with the user's arguments.  Each target's packer is joined here to the
stub or the loader that it embeds.

Main results:

- Theorem `packed_runs_on_linux_iff`: what `fexecve` gets from a packed file, and when.
- Theorem `packed_runs_on_macos`: what `execv` gets from a packed file.
- Theorem `packed_starts_on_macos_iff`: a packed file comes to that point exactly when its
  original fits the loader's buffers.
- Theorem `packed_runs_on_windows`: what a packed file runs, and how it ends.
-/

namespace Upxz
namespace Cli

open Machine Format

section SelfExtract

variable {κ : Type} [DecidableEq κ] {host : Host κ} {input output : Path} {level : LevelArgs}
  {force : Bool} {disk : Disk κ} {raw file : Bytes} {name : String}

/-! ## What was packed -/

/-- The input `raw` was packed for good under the name `name`, and `file` stands at the
output. -/
structure Packed (host : Host κ) (input output : Path) (level : LevelArgs) (force : Bool)
    (disk : Disk κ) (raw : Bytes) (name : String) (file : Bytes) : Prop where
  read : ∃ mode, disk (host.os.resolve input) = some (.file raw mode)
  named : host.sanitizeName input = .ok name
  short : (asBytes name).length ≤ maxNameLen
  ends : ((packSfx host input output level force).run disk).1 = .ok ()
  left : ∃ mode, ((packSfx host input output level force).run disk).2
    (host.os.resolve output) = some (.file file mode)

/-- A packed file has the layout of its target around the compressed input. -/
theorem Packed.layout (h : Packed host input output level force disk raw name file)
    (hwrites : host.os.WritesSucceed) :
    ∃ payload, compress host.backend level.codec raw level.level = .ok payload ∧
      SfxLayout host ((Header.mk name level.codec).encode ++ payload) file ∧
      (host.target = .macos → level.codec = .zstd) := by
  rcases h.read with ⟨rawMode, hnode⟩
  rcases exists_packing_of_ok hwrites hnode h.named h.ends with ⟨p, mode, hput, hraw, hname⟩
  rcases h.left with ⟨leftMode, hleft⟩
  have hfile : p.file = file := by
    rw [hput, Disk.put_same] at hleft
    cases hleft
    rfl
  have hcompressed := p.compressed
  have hlayout := p.layout
  rw [hraw] at hcompressed
  rw [hname, hfile] at hlayout
  refine ⟨p.payload, hcompressed, hlayout, ?_⟩
  intro hmacos
  cases hcodec : level.codec with
  | zstd => rfl
  | gzip => exact (p.codec_ok hmacos hcodec).elim

/-- The container of a packed file. -/
def Packed.container (h : Packed host input output level force disk raw name file)
    (payload : Bytes) : Container :=
  (Header.mk name level.codec).container payload (nameFits_of_le h.short)

/-- The stored name has no NUL where the path has none. -/
theorem Packed.nul_not_mem (h : Packed host input output level force disk raw name file)
    (htarget : host.target ≠ .windows) (hnul : 0 ∉ input) : 0 ∉ asBytes name := by
  have hnamed := h.named
  rw [Host.sanitizeName_of_ne htarget] at hnamed
  exact fun hmem => hnul (subset_of_fileName (sanitizeName_eq_ok_iff.mp hnamed).1 hmem)

/-- A stub extracts the compressed input from a packed file, under the stored name. -/
theorem Packed.parseImage (h : Packed host input output level force disk raw name file)
    (hwrites : host.os.WritesSucceed) (hround : host.backend.RoundTrip)
    (htarget : host.target ≠ .macos) (hsize : file.length ≤ isizeMax) (mode : Overflow) :
    ∃ payload, Stub.parseImage mode file = .ok (level.codec.id, name, payload) ∧
      Stub.decompressPayload host.backend level.codec.id payload = .ok raw := by
  rcases h.layout hwrites with ⟨payload, hcompress, hlayout, -⟩
  refine ⟨payload, ?_, Stub.decompressPayload_eq_ok_iff.mpr
    (decompress_of_compress hround hcompress)⟩
  cases hlayout with
  | stub _ =>
      refine (Stub.parseImage_eq_ok_iff hsize).mpr
        ⟨host.embedded, h.container payload, ?_, rfl, rfl, rfl⟩
      rw [Packed.container, Header.container_bytes]
  | loader hmacos _ _ => exact (htarget hmacos).elim

/-! ## The loader -/

section Loading

variable {ι α : Type} [DecidableEq ι] {env : Loader.Darwin ι α} {start : Loader.Files ι}

omit [DecidableEq ι] in
/-- The loader reads the container back from a packed file. -/
theorem Packed.image (h : Packed host input output level force disk raw name file)
    (hwrites : host.os.WritesSucceed) (htarget : host.target = .macos)
    {permissions : Nat} (hself : start env.self = some ⟨permissions, file⟩) :
    ∃ payload, compress host.backend level.codec raw level.level = .ok payload ∧
      host.embedded.length < 2 ^ 32 ∧ (h.container payload).bytes.length < 2 ^ 32 ∧
      (h.container payload).codec = .zstd ∧
      Loader.image env start = loaderImage host.embedded (h.container payload).bytes := by
  rcases h.layout hwrites with ⟨payload, hcompress, hlayout, hcodec⟩
  refine ⟨payload, hcompress, ?_⟩
  have hbytes : (h.container payload).bytes = (Header.mk name level.codec).encode ++ payload := by
    rw [Packed.container, Header.container_bytes]
  have himage : Loader.image env start = file := by
    rw [Loader.image, hself]
    rfl
  rw [himage, hbytes]
  cases hlayout with
  | stub hstub =>
      rw [htarget] at hstub
      rcases hstub with hlinux | hwindows
      · cases hlinux
      · cases hwindows
  | loader _ hloader happ => exact ⟨hloader, happ, hcodec htarget, rfl⟩

/-- What the loader restores, its own copy of zstd restored. -/
theorem exists_decompress_of_restoreApp {loader : Bytes} {c : Container}
    {libs : Loader.Libraries} {fuel : Nat} {nameCString original : Bytes}
    (hmalloc : libs.MallocSucceeds) (hloader : loader.length < 2 ^ 32)
    (happ : c.bytes.length < 2 ^ 32) (hzstd : c.codec = .zstd)
    (h : Loader.restoreApp libs fuel (loaderImage loader c.bytes) = .ok (nameCString, original)) :
    nameCString = c.name ++ [0] ∧
      ∃ attempt capacity, libs.decompressDctx attempt capacity c.payload = .ok original := by
  unfold Loader.restoreApp at h
  rw [Loader.parseFile_loaderImage hloader happ hzstd, ok_bind] at h
  rcases bind_eq_ok_iff.mp h with ⟨restored, hrestored, h⟩
  cases h
  refine ⟨rfl, ?_⟩
  unfold Loader.decompressApp at hrestored
  split_ifs at hrestored
  have hleaves := Loader.exists_growLoop_ok_iff.mp ⟨fuel, hrestored⟩
  have hpost := LeavesWith.post (I := fun _ => True)
    (Q := fun result => ∀ original, result = .ok original →
      ∃ attempt capacity, libs.decompressDctx attempt capacity c.payload = .ok original)
    (fun _ _ _ _ => trivial) ?_ hleaves trivial
  · exact hpost original rfl
  · intro g result _ hturn out hresult
    rcases Loader.eq_of_growTurn_leave hmalloc hturn with hcap | ⟨-, original', hok, hdecompress⟩
    · rw [hcap] at hresult
      cases hresult
    · rw [hok] at hresult
      cases hresult
      exact ⟨_, _, hdecompress⟩

/-- A temp file is opened as it is, or empty. -/
theorem length_le_of_darwinOpen {root : Bool} {mode n : Nat} {node : Option Loader.TempNode}
    {opened : Loader.TempNode} (h : ∀ old, node = some old → old.content.length ≤ n)
    (hopen : Loader.darwinOpen root Loader.openFlags mode node = .ok opened) :
    opened.content.length ≤ n := by
  cases node with
  | none =>
      rw [Loader.darwinOpen_none] at hopen
      cases hopen
      exact Nat.zero_le _
  | some old =>
      by_cases hwritable : root = true ∨ old.OwnerWritable
      · rw [Loader.darwinOpen_some hwritable] at hopen
        cases hopen
        exact h _ rfl
      · rw [Loader.darwinOpen_denied hwritable] at hopen
        cases hopen

/-- What a library decodes to a buffer is what it decodes to. -/
theorem eq_of_decodes {libs : Loader.Libraries} {payload original out : Bytes}
    (hdecodes : libs.Decodes payload original) {attempt capacity : Nat}
    (hok : libs.decompressDctx attempt capacity payload = .ok out) : out = original := by
  have hfull := (hdecodes attempt capacity).1 (hdecodes.length_le hok)
  rw [hok] at hfull
  cases hfull
  rfl

omit [DecidableEq ι] in
/-- A packed file whose original fits the loader's buffers can be started. -/
theorem Packed.startable (h : Packed host input output level force disk raw name file)
    (hwrites : host.os.WritesSucceed) (htarget : host.target = .macos) {permissions : Nat}
    (hself : start env.self = some ⟨permissions, file⟩) (htmp : start env.tmp = none)
    {payload : Bytes} (hcompress : compress host.backend level.codec raw level.level = .ok payload)
    (hdecodes : env.libraries.Decodes payload raw) {k : Nat}
    (hfits : raw.length ≤ Loader.firstOutSize env.libraries payload * 2 ^ k)
    (hcap : Loader.firstOutSize env.libraries payload * 2 ^ k ≤ Loader.maxOut) :
    ∃ fuel, Loader.Startable env start fuel := by
  rcases h.image hwrites htarget hself with ⟨payload', hcompress', hloader, happ, hcodec, himage⟩
  rw [hcompress] at hcompress'
  cases hcompress'
  rcases (Loader.restoreApp_loaderImage_iff hloader happ hcodec rfl (fun _ _ => rfl)
    hdecodes).mpr ⟨k, hfits, hcap⟩ with ⟨fuel, hrestore⟩
  refine ⟨fuel, ?_, ?_, ?_⟩
  · rw [hself]
    exact Option.some_ne_none _
  · rw [himage]
    exact ⟨_, _, hrestore⟩
  · rw [htmp]
    exact ⟨_, Loader.darwinOpen_none ..⟩

end Loading

/-! ## A packed file for each target -/

/-- The container of `hi.txt`. -/
def hiContainer : Bytes :=
  (Header.mk "hi.txt" .zstd).encode ++ storedFrame (asBytes "hi")

/-- `hi.txt`, packed for macOS. -/
def hiMacos : Bytes :=
  loaderImage elfStub.bytes hiContainer

theorem packed_hi (target : Target)
    (htarget : target = .linux ∨ target = .windows) :
    Packed (hostFor target) (asBytes "hi.txt") (asBytes "hi.txt.upxz") LevelArgs.default false
      hiDisk (asBytes "hi") "hi.txt" Stub.hiImage where
  read := ⟨0o644, rfl⟩
  named := by
    rcases htarget with rfl | rfl
    · decide
    · decide
  short := by decide
  ends := by
    rcases htarget with rfl | rfl
    · rfl
    · rfl
  left := by
    rcases htarget with rfl | rfl
    · exact ⟨0o755, rfl⟩
    · exact ⟨0o644, rfl⟩

theorem packed_hi_macos :
    Packed (hostFor .macos) (asBytes "hi.txt") (asBytes "hi.txt.upxz") LevelArgs.default false
      hiDisk (asBytes "hi") "hi.txt" hiMacos where
  read := ⟨0o644, rfl⟩
  named := by decide
  short := by decide
  ends := rfl
  left := ⟨0o755, rfl⟩

/-- A place for the packed file, and nothing else. -/
def alone {ι ν : Type} [DecidableEq ι] (place : ι) (node : ν) : ι → Option ν := fun other =>
  if other = place then some node else none

/-- The file system of `hi.txt.upxz` on macOS. -/
def hiFilesMacos : Loader.Files Path :=
  alone Loader.packedPath ⟨0o755, hiMacos⟩

theorem hiLibraries_eq_ok (attempt capacity : Nat) (payload out : Bytes)
    (h : Loader.hiLibraries.decompressDctx attempt capacity payload = .ok out) :
    storedBackend.zstdDecodeAll payload = .ok out := by
  simp only [Loader.hiLibraries, Loader.oneFrameLibraries] at h
  split_ifs at h with hframe hfits
  cases h
  have hlen : (asBytes "hi").length ≤ 131072 := by decide
  rw [hframe]
  exact readStoredFrame_storedFrame hlen

theorem hiLibraries_decodes :
    Loader.hiLibraries.Decodes (storedFrame (asBytes "hi")) (asBytes "hi") :=
  Loader.oneFrameLibraries_decodes _ _ _

theorem compress_hi : compress (hostFor .macos).backend LevelArgs.default.codec (asBytes "hi")
    LevelArgs.default.level = .ok (storedFrame (asBytes "hi")) :=
  rfl

theorem hiMacos_startable :
    ∃ fuel, Loader.Startable (Loader.loneDarwin 7 Loader.packedPath) hiFilesMacos fuel := by
  have hfits : (asBytes "hi").length ≤
      Loader.firstOutSize Loader.hiLibraries (storedFrame (asBytes "hi")) * 2 ^ 0 := by decide
  exact packed_hi_macos.startable (fun _ _ _ => rfl) rfl rfl rfl compress_hi hiLibraries_decodes
    hfits (by decide)

/-! ## Running it -/

section Linux

variable {kernel : Stub.Kernel}

/-- Started on Linux, a packed file comes to `fexecve` exactly when it gets a memfd, the
writes to it take the original and every argument and variable is UTF-8.  Then the memfd holds
the packed original, however its writes were split up, and the arguments but the first and the
environment are passed on. -/
theorem packed_runs_on_linux_iff
    (h : Packed host input output level force disk raw name file)
    (hwrites : host.os.WritesSucceed) (hround : host.backend.RoundTrip)
    (htarget : host.target = .linux) (hsize : file.length ≤ isizeMax) (hnul : 0 ∉ input)
    (mode : Overflow) (invocation : Stub.Invocation) (call : Stub.FexecveCall) :
    (∃ fuel, Stub.runToFexecve mode host.backend kernel fuel file invocation.args
        invocation.env = .ok call) ↔
      Stub.createExecMemfd kernel = .ok call.fd ∧ kernel.write.Takes 0 raw.length ∧
      call.content = raw ∧ call.argv = asBytes name :: invocation.args.drop 1 ∧
      call.envp = (invocation.env.filter fun entry => Stub.IsEntry entry) ∧
      (∀ a ∈ invocation.args, IsUtf8 a) ∧
      ∀ entry ∈ invocation.env, Stub.IsEntry entry → IsUtf8 entry := by
  have hlinux : host.target ≠ .macos := by
    rw [htarget]
    exact Target.noConfusion
  have hwindows : host.target ≠ .windows := by
    rw [htarget]
    exact Target.noConfusion
  have hholds : Stub.Holds host.backend file name raw := by
    rcases h.parseImage hwrites hround hlinux hsize mode with ⟨payload, hparse, hdecompress⟩
    exact (Stub.holds_iff mode hsize).mpr ⟨_, payload, hparse, hdecompress⟩
  have hwhole : ¬invocation.Broken ↔ (∀ a ∈ invocation.args, IsUtf8 a) ∧
      ∀ entry ∈ invocation.env, Stub.IsEntry entry → IsUtf8 entry := by
    simp only [Stub.Invocation.Broken, not_or, not_exists, not_and, not_not]
  rw [Stub.exists_runToFexecve_iff hsize, hwhole]
  constructor
  · intro hrun
    rcases hrun with ⟨stored, hstored, -, hfd, htakes, hutf8, hargv, henvp⟩
    rcases hholds.unique hsize hstored with ⟨rfl, hcontent⟩
    rw [hcontent] at htakes
    exact ⟨hfd, htakes, hcontent, hargv, henvp, hutf8⟩
  · intro hcall
    rcases hcall with ⟨hfd, htakes, hcontent, hargv, henvp, hutf8⟩
    rw [hcontent]
    exact ⟨name, hholds, h.nul_not_mem hwindows hnul, hfd, htakes, hutf8, hargv, henvp⟩

/-- `hi.txt`, packed for Linux and run with one argument and two entries in its environment,
one of them no variable. -/
theorem packed_runs_on_linux_hi : ∃ call,
    (∃ fuel, Stub.runToFexecve .checked storedBackend Stub.splitWrites fuel Stub.hiImage
      [asBytes "./hi", asBytes "x"] [asBytes "A=1", asBytes "A"] = .ok call) ∧
    call.content = asBytes "hi" ∧ call.argv = [asBytes "hi.txt", asBytes "x"] ∧
    call.envp = [asBytes "A=1"] := by
  let invocation : Stub.Invocation :=
    ⟨[asBytes "./hi", asBytes "x"], [asBytes "A=1", asBytes "A"], by decide, by decide⟩
  let call : Stub.FexecveCall :=
    ⟨3, asBytes "hi", [asBytes "hi.txt", asBytes "x"], [asBytes "A=1"]⟩
  refine ⟨call, ?_, rfl, rfl, rfl⟩
  exact (packed_runs_on_linux_iff (packed_hi .linux (Or.inl rfl)) (fun _ _ _ => rfl)
    storedBackend_roundTrip rfl (by decide) (by decide) .checked invocation call).mpr
    ⟨rfl, Stub.splitWrites_short.takes 0 _, rfl, rfl, by decide, by decide, by decide⟩

end Linux

section Macos

variable {ι α : Type} [DecidableEq ι] {env : Loader.Darwin ι α} {start : Loader.Files ι}

/-- Started on macOS, what a packed file hands over to `execv` is the packed original, sealed
in the temp file and perhaps signed, under the stored name and with the user's arguments. -/
theorem packed_runs_on_macos
    (h : Packed host input output level force disk raw name file)
    (hwrites : host.os.WritesSucceed) (hround : host.backend.RoundTrip)
    (htarget : host.target = .macos) (hquiet : env.Quiet) {permissions : Nat}
    (hself : start env.self = some ⟨permissions, file⟩)
    (hzstd : ∀ attempt capacity payload out, env.decompress attempt capacity payload = .ok out →
      host.backend.zstdDecodeAll payload = .ok out)
    (hleft : ∀ node, start env.tmp = some node → node.content.length ≤ raw.length) {fuel : Nat}
    {path : Path} {a : Loader.Addr} {next : Unit → Loader.Loading α (Option Nat)}
    {p : Loader.Proc ι α} {f : Loader.Files ι}
    (hrun : Loader.Reaches env start fuel (.call (.execv path (.vector a)) next) p f) :
    path = env.tmpPath ∧ ∃ nameAddr content, f env.tmp = some ⟨0o500, content⟩ ∧
      Loader.Signed env raw content ∧
      p.mem nameAddr = some (.bytes ((asBytes name ++ [0]).map some)) ∧
      p.mem a = some (.pointers (Loader.execSlots env nameAddr)) := by
  rcases h.image hwrites htarget hself with ⟨payload, hcompress, hloader, happ, hcodec, himage⟩
  rcases hrun.legal Loader.realMain_keeps with ⟨⟨-, -, hpath, -⟩, hstarts⟩
  rcases hstarts hquiet with ⟨stored, nameAddr, hsealed, hname, hvector⟩
  rcases hsealed with ⟨original, old, content, hrestore, hopen, hnode, hsigned⟩
  rw [himage] at hrestore
  rcases exists_decompress_of_restoreApp (fun _ _ => rfl) hloader happ hcodec hrestore with
    ⟨rfl, attempt, capacity, hdecompress⟩
  have hlevel : level.codec = .zstd := hcodec
  have horiginal : original = raw := by
    have hback := decompress_of_compress hround hcompress
    rw [hlevel, decompress, libraryContext_eq_ok_iff] at hback
    have hsame := hzstd attempt capacity payload original hdecompress
    rw [hback] at hsame
    cases hsame
    rfl
  rw [horiginal, overlay_length_eq_iff.mpr (length_le_of_darwinOpen hleft hopen)] at hsigned
  exact ⟨hpath, nameAddr, content, hnode, hsigned, hname, hvector⟩

/-- `hi.txt`, packed for macOS, is what its packed file starts. -/
theorem packed_runs_on_macos_hi : ∃ fuel a next p f,
    Loader.Reaches (Loader.loneDarwin 7 Loader.packedPath) hiFilesMacos fuel
      (.call (.execv (Loader.loneDarwin 7 Loader.packedPath).tmpPath (.vector a)) next) p f ∧
    ∃ content, f (Loader.loneDarwin 7 Loader.packedPath).tmp = some ⟨0o500, content⟩ ∧
      Loader.Signed (Loader.loneDarwin 7 Loader.packedPath) (asBytes "hi") content := by
  have hquiet := Loader.loneDarwin_quiet 7 Loader.packedPath
  rcases hiMacos_startable with ⟨fuel, hstart⟩
  rcases Loader.exists_execv hstart hquiet id id (Loader.loneDarwin_found 7 (by decide))
    (.refl ..) with ⟨a, next, p, f, hrun⟩
  have hnone : ∀ node, hiFilesMacos (Loader.loneDarwin 7 Loader.packedPath).tmp = some node →
      node.content.length ≤ (asBytes "hi").length := by
    intro node hnode
    cases hnode
  rcases (packed_runs_on_macos packed_hi_macos (fun _ _ _ => rfl) storedBackend_roundTrip rfl
    hquiet rfl hiLibraries_eq_ok hnone hrun).2 with
    ⟨-, content, hnode, hsigned, -, -⟩
  exact ⟨fuel, a, next, p, f, hrun, content, hnode, hsigned⟩

/-- Where no call fails and nothing is in the way, a packed file comes to that point exactly
when some doubling of sixteen times its payload's length, or of 4096 if that is more, lies
between the length of the original and the cap. -/
theorem packed_starts_on_macos_iff
    (h : Packed host input output level force disk raw name file)
    (hwrites : host.os.WritesSucceed) (htarget : host.target = .macos) (hquiet : env.Quiet)
    (hcalls : ¬env.mayFail) (hparent : ¬env.forked) (hfound : env.Found) {permissions : Nat}
    (hself : start env.self = some ⟨permissions, file⟩) (htmp : start env.tmp = none)
    (hzstd : ∀ payload, compress host.backend level.codec raw level.level = .ok payload →
      env.libraries.Decodes payload raw ∧
      env.libraries.frameContentSize payload = Loader.zstdContentsizeUnknown) :
    ∃ payload, compress host.backend level.codec raw level.level = .ok payload ∧
      ((∃ fuel a next p f, Loader.Reaches env start fuel
          (.call (.execv env.tmpPath (.vector a)) next) p f) ↔
        ∃ k, raw.length ≤ max (16 * payload.length) 4096 * 2 ^ k ∧
          max (16 * payload.length) 4096 * 2 ^ k ≤ Loader.maxOut) := by
  rcases h.image hwrites htarget hself with ⟨payload, hcompress, hloader, happ, hcodec, himage⟩
  rcases hzstd payload hcompress with ⟨hdecodes, hunknown⟩
  refine ⟨payload, hcompress, ?_⟩
  rw [← Loader.exists_doubling_saturating_iff, ← Loader.firstOutSize_of_unknown hunknown]
  constructor
  · intro hrun
    rcases hrun with ⟨fuel, a, next, p, f, hrun⟩
    rcases (hrun.legal Loader.realMain_keeps).2 hquiet with
      ⟨stored, _, ⟨original, _, _, hrestore, -⟩, -⟩
    rw [himage] at hrestore
    rcases exists_decompress_of_restoreApp (fun _ _ => rfl) hloader happ hcodec hrestore with
      ⟨rfl, attempt, capacity, hdecompress⟩
    rw [eq_of_decodes hdecodes hdecompress] at hrestore
    exact (Loader.restoreApp_loaderImage_iff hloader happ hcodec rfl (fun _ _ => rfl)
      hdecodes).mp ⟨fuel, hrestore⟩
  · intro hfits
    rcases hfits with ⟨k, hfits, hcap⟩
    rcases h.startable hwrites htarget hself htmp hcompress hdecodes hfits hcap with
      ⟨fuel, hstart⟩
    rcases Loader.exists_execv hstart hquiet hcalls hparent hfound (.refl ..) with
      ⟨a, next, p, f, hrun⟩
    exact ⟨fuel, a, next, p, f, hrun⟩

/-- `hi.txt`, packed for macOS, is started by its packed file. -/
theorem packed_starts_on_macos_hi : ∃ fuel a next p f,
    Loader.Reaches (Loader.loneDarwin 7 Loader.packedPath) hiFilesMacos fuel
      (.call (.execv (Loader.loneDarwin 7 Loader.packedPath).tmpPath (.vector a)) next) p f := by
  have hcompressed : ∀ payload, compress (hostFor .macos).backend LevelArgs.default.codec
      (asBytes "hi") LevelArgs.default.level = .ok payload →
      Loader.hiLibraries.Decodes payload (asBytes "hi") ∧
      Loader.hiLibraries.frameContentSize payload = Loader.zstdContentsizeUnknown := by
    intro payload hpayload
    rw [compress_hi] at hpayload
    cases hpayload
    exact ⟨hiLibraries_decodes, by decide⟩
  have hself : hiFilesMacos (Loader.loneDarwin 7 Loader.packedPath).self =
      some ⟨0o755, hiMacos⟩ := rfl
  have htmp : hiFilesMacos (Loader.loneDarwin 7 Loader.packedPath).tmp = none := rfl
  rcases packed_starts_on_macos_iff packed_hi_macos (fun _ _ _ => rfl) rfl
    (Loader.loneDarwin_quiet 7 Loader.packedPath) id id (Loader.loneDarwin_found 7 (by decide))
    hself htmp hcompressed with ⟨payload, hpayload, hstarts⟩
  rw [compress_hi] at hpayload
  cases hpayload
  exact hstarts.mpr ⟨0, by decide, by decide⟩

end Macos

section Windows

variable {ι : Type} [DecidableEq ι] {env : Winstub.Windows ι} {start : Winstub.Files ι}

/-- Started on Windows, a packed file runs nothing but the packed original, from its temp file
and with the user's arguments; where nothing is in the way it ends, without its temp file and
with the exit code of the original. -/
theorem packed_runs_on_windows
    (h : Packed host input output level force disk raw name file)
    (hwrites : host.os.WritesSucceed) (hround : host.backend.RoundTrip)
    (htarget : host.target = .windows) (hsize : file.length ≤ isizeMax) (hquiet : env.Quiet)
    (hbackend : env.launch.backend = host.backend) (hself : start env.packed = some file) :
    (∀ path args next p f, Winstub.Reaches env start (.call (.status path args) next) p f →
      path = Winstub.tempPath env.launch.proc name ∧ args.map encodeUtf16 = env.args.drop 1 ∧
      f (env.place path) = some raw) ∧
    (¬env.mayFail → ¬env.writeFails → ¬env.removeFails →
      env.self.length < Winstub.initialCap * 2 → env.loads raw → (∀ a ∈ env.args, IsUtf16 a) →
      (∃ exit p f, Winstub.Reaches env start (.done exit) p f) ∧
      ∀ exit p f, Winstub.Reaches env start (.done exit) p f → f (env.temp name) = none ∧
        ∃ status : Option Int32, p.ran = some status ∧ exit = .code (status.getD 1)) := by
  have hwindows : host.target ≠ .macos := by
    rw [htarget]
    exact Target.noConfusion
  rcases h.parseImage hwrites hround hwindows hsize env.launch.overflow with
    ⟨payload, hparse, hdecompress⟩
  have hrestored : Winstub.RestoresTo env start name raw := by
    refine ⟨file, hself, ?_⟩
    unfold Winstub.restore
    rw [hbackend]
    simp only [hparse, hdecompress, ok_bind]
    rfl
  have hkeeps : Keeps (Winstub.winstubWorld env start) (Winstub.Ends env start)
      (Winstub.main env.launch) .fresh start := Winstub.main_keeps
  constructor
  · intro path args next p f hrun
    rcases hrun.legal hkeeps with ⟨hargs, stored, hpath, hstands⟩
    rcases hstands hquiet with ⟨original, hstored, hcontent⟩
    rcases hstored.unique hrestored with ⟨rfl, rfl⟩
    exact ⟨hpath, hargs, hcontent⟩
  · intro hcalls hwritable hremovable hlength hloads hstrings
    have hsmooth : Winstub.Smooth env start name raw :=
      ⟨hquiet, hcalls, hwritable, hremovable, hlength, hrestored, hloads, hstrings⟩
    refine ⟨hkeeps.exists_end fun p f c _ => Winstub.winstubWorld_answers p f c, ?_⟩
    intro exit p f hrun
    exact hsmooth.passes_on (hrun.stopped hkeeps)

/-- `hi.txt`, packed for Windows, is what its packed file runs. -/
theorem packed_runs_on_windows_hi : ∃ path args next p f,
    Winstub.Reaches (Winstub.pairWindows true) Winstub.pairImages (.call (.status path args) next)
      p f ∧ f ((Winstub.pairWindows true).place path) = some (asBytes "hi") := by
  have hself : Winstub.pairImages (Winstub.pairWindows true).packed = some Stub.hiImage := by
    decide
  have hruns := packed_runs_on_windows (packed_hi .windows (Or.inr rfl)) (fun _ _ _ => rfl)
    storedBackend_roundTrip rfl (by decide) (Winstub.pairWindows_smooth true).quiet rfl hself
  rcases (Winstub.pairWindows_smooth true).exists_status with ⟨path, args, next, p, f, hrun⟩
  exact ⟨path, args, next, p, f, hrun, (hruns.1 path args next p f hrun).2.2⟩

end Windows


end SelfExtract

end Cli
end Upxz
