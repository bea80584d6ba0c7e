import Upxz.Cli.Vault

/-!
# Cli - What the reading commands make of any file

`-l`, `-t` and `-d` read a file, locate its container, parse its header and decompress its
payload, each in its own function.  On a system where no call fails they make the same of
every file, packed by this program or not.

Main results:

- Theorems `test_eq_ok_iff`, `list_eq_ok_iff` and `unpack_eq_ok_iff`: what each command makes
  of a file, exactly.
- Theorem `openPacked_eq_panic_iff`: the files the commands panic on.
- Theorem `readers_agree`: the three of them together.
-/

namespace Upxz
namespace Cli

open Machine Format

section Readers

variable {κ : Type} {host : Host κ} {path : Path} {disk : Disk κ}

/-! ## Reading -/

/-- A reading of a file: the container the classifier locates in it, the header and payload
of that, and the original. -/
structure Reading (host : Host κ) (disk : Disk κ) (path : Path) where
  buf : Bytes
  mode : Nat
  offset : Nat
  size : Nat
  header : Header
  payload : Bytes
  original : Bytes
  read : disk (host.os.resolve path) = some (.file buf mode)
  addressable : buf.length ≤ isizeMax
  located : classify host.overflow buf = .ok (.packed offset size)
  parsed : ∃ off, parseHeader ((buf.drop offset).take size) = .ok (header, off) ∧
    ((buf.drop offset).take size).drop off = payload
  decompressed : decompress host.backend header.codec payload = .ok original

/-- What there is to list of a reading: of a bare container no size but its own. -/
def Reading.listing (r : Reading host disk path) : Listing :=
  if r.offset = 0 then
    ⟨"upxz container", r.header.codec.name, r.header.name, r.size, none, r.original.length⟩
  else
    ⟨"upxz self-extractor", r.header.codec.name, r.header.name, r.size, some r.buf.length,
      r.original.length⟩

/-- The mode a restored file ends up with. -/
def Host.restoredMode (host : Host κ) (path : Path) (raw : Bytes) (disk : Disk κ) : Nat :=
  if host.target.unix && looksExecutable raw then 0o755 else host.os.modeAt path disk

/-- A file that trips the commands: one that no buffer can hold, or one without a magic and
without the macOS trailer whose last eight bytes overflow as a stub size. -/
def Trips (host : Host κ) (file : Bytes) (why : Panic) : Prop :=
  isizeMax < file.length ∧ why = .capacityOverflow ∨
    file.length ≤ isizeMax ∧ ¬StartsWithMagic file ∧ ¬UpxzEndFits file ∧
      TrailerOverflows file ∧ why = trailerPanic host.overflow

/-- A file of a size the system allows is read. -/
theorem readInputFile_of_calm (hcalm : host.os.Calm) {raw : Bytes} {mode : Nat}
    (hnode : disk (host.os.resolve path) = some (.file raw mode)) :
    readInputFile host path disk =
      if raw.length ≤ isizeMax then .ok raw else .error (.panic .capacityOverflow) := by
  have hfile : (Node.file raw mode).isFile = true := rfl
  have hlen : (Node.file raw mode).len = raw.length := rfl
  have hread := readToEnd_of_calm hcalm hnode
  unfold readInputFile
  rw [metadata_of_calm hcalm hnode, openFile_of_calm hcalm hnode]
  simp only [libraryContext, ok_bind, ensure_of _ hfile, reserve, hlen]
  split_ifs with hsize
  · simp only [liftPanic_ok, ok_bind, hread]
  · rfl

/-- What is not a file is refused. -/
theorem readInputFile_of_not_file (h : ∀ raw mode,
    disk (host.os.resolve path) ≠ some (.file raw mode)) :
    ∃ e, readInputFile host path disk = .error (.err e) := by
  unfold readInputFile metadata
  cases host.os.statFault disk path with
  | some e => exact ⟨_, rfl⟩
  | none =>
      cases hnode : disk (host.os.resolve path) with
      | none => exact ⟨_, rfl⟩
      | some node =>
          cases node with
          | directory => exact ⟨_, rfl⟩
          | file raw mode => exact (h raw mode hnode).elim

/-- The container of a file, exactly. -/
theorem openContainer_eq_ok_iff {buf payload : Bytes} {size : Nat} {header : Header}
    (hlen : buf.length ≤ isizeMax) :
    openContainer host buf path = .ok (size, header, payload) ↔
      ∃ offset, classify host.overflow buf = .ok (.packed offset size) ∧
        ∃ off, parseHeader ((buf.drop offset).take size) = .ok (header, off) ∧
          ((buf.drop offset).take size).drop off = payload := by
  have hsize : ∀ {offset len}, classify host.overflow buf = .ok (.packed offset len) →
      ((buf.drop offset).take len).length = len := by
    intro offset len hkind
    have hbounds := classify_bounds hlen hkind
    rw [List.length_take, List.length_drop]
    omega
  unfold openContainer
  constructor
  · intro h
    rcases bind_eq_ok_iff.mp h with ⟨container, hcontainer, h⟩
    rcases bind_eq_ok_iff.mp h with ⟨⟨parsed, off⟩, hparsed, h⟩
    rcases bind_eq_ok_iff.mp h with ⟨rest, hrest, h⟩
    cases h
    rcases (packedContainerSlice_eq_ok_iff hlen).mp hcontainer with ⟨offset, len, hkind, rfl⟩
    rw [liftPanic_eq_ok_iff] at hrest
    rw [hsize hkind]
    refine ⟨offset, hkind, off, hparsed, ?_⟩
    unfold sliceFrom at hrest
    split at hrest
    · exact Except.ok.inj hrest
    · cases hrest
  · intro h
    rcases h with ⟨offset, hkind, off, hparsed, rfl⟩
    have hle : off ≤ ((buf.drop offset).take size).length := by
      rcases encode_append_of_parseHeader hparsed with ⟨-, hoff, happend⟩
      rw [← happend, List.length_append, hoff]
      exact Nat.le_add_right _ _
    simp only [packedContainerSlice_packed hlen hkind, ok_bind, hparsed, sliceFrom_ok hle,
      liftPanic_ok, hsize hkind]
    rfl

/-- Past the classifier nothing panics. -/
theorem openContainer_clean {buf : Bytes} (hlen : buf.length ≤ isizeMax) {kind : Kind}
    (hkind : classify host.overflow buf = .ok kind) : Clean (openContainer host buf path) := by
  unfold openContainer
  refine (packedContainerSlice_clean hlen hkind _).bind fun container _ => ?_
  refine (parseHeader_clean container).bind fun ⟨header, off⟩ hparsed => ?_
  dsimp only
  have hle : off ≤ container.length := by
    rcases encode_append_of_parseHeader hparsed with ⟨-, hoff, happend⟩
    rw [← happend, List.length_append, hoff]
    exact Nat.le_add_right _ _
  rw [sliceFrom_ok hle]
  exact clean_ok _

/-! ## What the commands share -/

/-- Read a file and open its container: the beginning of all three commands. -/
def openPacked (host : Host κ) (path : Path) (disk : Disk κ) :
    Exec Error (Bytes × Nat × Header × Bytes) := do
  let buf ← readInputFile host path disk
  let (size, header, payload) ← openContainer host buf path
  return (buf, size, header, payload)

/-- The files that have a container. -/
theorem openPacked_eq_ok_iff (hcalm : host.os.Calm) {buf payload : Bytes} {size : Nat}
    {header : Header} :
    openPacked host path disk = .ok (buf, size, header, payload) ↔
      (∃ mode, disk (host.os.resolve path) = some (.file buf mode)) ∧
        buf.length ≤ isizeMax ∧ openContainer host buf path = .ok (size, header, payload) := by
  unfold openPacked
  constructor
  · intro h
    rcases bind_eq_ok_iff.mp h with ⟨raw, hread, h⟩
    rcases bind_eq_ok_iff.mp h with ⟨⟨n, parsed, rest⟩, hopen, h⟩
    cases h
    rcases readInputFile_eq_ok hread with ⟨hlen, hnode⟩
    exact ⟨hnode, hlen, hopen⟩
  · intro h
    rcases h with ⟨⟨mode, hnode⟩, hlen, hopen⟩
    rw [readInputFile_of_calm hcalm hnode, if_pos hlen, ok_bind, hopen]
    rfl

/-- Where the classifier panics, no container is opened. -/
theorem openContainer_of_classify_error {buf : Bytes} {why : Panic}
    (h : classify host.overflow buf = .error why) :
    openContainer host buf path = .error (.panic why) := by
  unfold openContainer packedContainerSlice
  rw [h]
  rfl

/-- The files that trip the commands. -/
theorem openPacked_eq_panic_iff (hcalm : host.os.Calm) {why : Panic} :
    openPacked host path disk = .error (.panic why) ↔
      ∃ file mode, disk (host.os.resolve path) = some (.file file mode) ∧
        Trips host file why := by
  constructor
  · intro h
    unfold openPacked at h
    by_cases hnode : ∃ file mode, disk (host.os.resolve path) = some (.file file mode)
    · rcases hnode with ⟨file, mode, hnode⟩
      refine ⟨file, mode, hnode, ?_⟩
      rw [readInputFile_of_calm hcalm hnode] at h
      by_cases hsize : file.length ≤ isizeMax
      · rw [if_pos hsize, ok_bind] at h
        cases hkind : classify host.overflow file with
        | error why' =>
            rw [openContainer_of_classify_error hkind, error_bind] at h
            cases h
            exact Or.inr ⟨hsize, (classify_eq_error_iff hsize).mp hkind⟩
        | ok kind =>
            have hopens : Clean (openContainer host file path) := openContainer_clean hsize hkind
            rcases hopens with ⟨opened, hok⟩ | ⟨e, herr⟩
            · rw [hok, ok_bind] at h
              cases h
            · rw [herr, error_bind] at h
              cases h
      · rw [if_neg hsize, error_bind] at h
        cases h
        exact Or.inl ⟨Nat.lt_of_not_le hsize, rfl⟩
    · push Not at hnode
      rcases readInputFile_of_not_file hnode with ⟨e, hread⟩
      rw [hread, error_bind] at h
      cases h
  · intro h
    rcases h with ⟨file, mode, hnode, htrips⟩
    rw [openPacked, readInputFile_of_calm hcalm hnode]
    rcases htrips with ⟨hsize, rfl⟩ | ⟨hsize, hpanics⟩
    · rw [if_neg (Nat.not_le_of_lt hsize), error_bind]
    · rw [if_pos hsize, ok_bind,
        openContainer_of_classify_error ((classify_eq_error_iff hsize).mpr hpanics), error_bind]

/-- A container that was opened and decompresses is a reading. -/
theorem exists_reading (hcalm : host.os.Calm) {buf payload original : Bytes} {size : Nat}
    {header : Header} (hopen : openPacked host path disk = .ok (buf, size, header, payload))
    (hdecompress : decompress host.backend header.codec payload = .ok original) :
    ∃ r : Reading host disk path, r.buf = buf ∧ r.size = size ∧ r.header = header ∧
      r.payload = payload ∧ r.original = original := by
  rcases (openPacked_eq_ok_iff hcalm).mp hopen with ⟨⟨mode, hnode⟩, hlen, hcontainer⟩
  rcases (openContainer_eq_ok_iff hlen).mp hcontainer with ⟨offset, hkind, hparsed⟩
  exact ⟨⟨buf, mode, offset, size, header, payload, original, hnode, hlen, hkind, hparsed,
    hdecompress⟩, rfl, rfl, rfl, rfl, rfl⟩

/-- And conversely. -/
theorem Reading.opened (hcalm : host.os.Calm) (r : Reading host disk path) :
    openPacked host path disk = .ok (r.buf, r.size, r.header, r.payload) :=
  (openPacked_eq_ok_iff hcalm).mpr ⟨⟨r.mode, r.read⟩, r.addressable,
    (openContainer_eq_ok_iff r.addressable).mpr ⟨r.offset, r.located, r.parsed⟩⟩

/-- Decompressing does not panic. -/
theorem decompress_clean (backend : Backend) (codec : Codec) (payload : Bytes) :
    Clean (decompress backend codec payload) := by
  unfold decompress
  cases codec with
  | zstd =>
      cases backend.zstdDecodeAll payload with
      | ok original => exact clean_ok original
      | error e => exact clean_err _
  | gzip =>
      cases backend.gzDecode payload with
      | ok original => exact clean_ok original
      | error e => exact clean_err _

/-! ## Test and list -/

theorem test_eq (host : Host κ) (path : Path) (disk : Disk κ) :
    test host path disk = (do
      let (_, _, header, payload) ← openPacked host path disk
      let _ ← withContext (decompress host.backend header.codec payload) "decompression test failed"
      return ()) := by
  unfold test openPacked
  cases readInputFile host path disk with
  | error fault => rfl
  | ok buf =>
      simp only [ok_bind]
      cases openContainer host buf path with
      | error fault => rfl
      | ok opened => rfl

theorem list_eq (host : Host κ) (path : Path) (disk : Disk κ) :
    list host path disk = (do
      let (buf, size, header, payload) ← openPacked host path disk
      let original ← withContext (decompress host.backend header.codec payload)
        "decompression failed while listing"
      match ← liftPanic (classify host.overflow buf) with
      | .packed 0 _ =>
          return ⟨"upxz container", header.codec.name, header.name, size, none, original.length⟩
      | .packed _ _ =>
          return ⟨"upxz self-extractor", header.codec.name, header.name, size,
            some buf.length, original.length⟩
      | .plain => .error (.panic .unreachable)) := by
  unfold list openPacked
  cases readInputFile host path disk with
  | error fault => rfl
  | ok buf =>
      simp only [ok_bind]
      cases openContainer host buf path with
      | error fault => rfl
      | ok opened => rfl

/-- A file passes its test when it has a reading. -/
theorem test_eq_ok_iff (hcalm : host.os.Calm) :
    test host path disk = .ok () ↔ Nonempty (Reading host disk path) := by
  rw [test_eq]
  constructor
  · intro h
    rcases bind_eq_ok_iff.mp h with ⟨⟨buf, size, header, payload⟩, hopen, h⟩
    rcases bind_eq_ok_iff.mp h with ⟨original, hdecompress, -⟩
    rcases exists_reading hcalm hopen (withContext_eq_ok_iff.mp hdecompress) with ⟨r, -⟩
    exact ⟨r⟩
  · intro h
    rcases h with ⟨r⟩
    simp only [r.opened hcalm, ok_bind, withContext_eq_ok_iff.mpr r.decompressed]
    rfl

/-- Its listing is that of the reading. -/
theorem list_eq_ok_iff (hcalm : host.os.Calm) {listing : Listing} :
    list host path disk = .ok listing ↔ ∃ r : Reading host disk path, r.listing = listing := by
  have hlists : ∀ r : Reading host disk path, list host path disk = .ok r.listing := by
    intro r
    rw [list_eq]
    simp only [r.opened hcalm, ok_bind, withContext_eq_ok_iff.mpr r.decompressed, r.located,
      liftPanic_ok]
    unfold Reading.listing
    cases r.offset with
    | zero => rfl
    | succ before => rfl
  constructor
  · intro h
    have hopened := h
    rw [list_eq] at hopened
    rcases bind_eq_ok_iff.mp hopened with ⟨⟨buf, size, header, payload⟩, hopen, hrest⟩
    rcases bind_eq_ok_iff.mp hrest with ⟨original, hdecompress, -⟩
    rcases exists_reading hcalm hopen (withContext_eq_ok_iff.mp hdecompress) with ⟨r, -⟩
    refine ⟨r, ?_⟩
    rw [hlists r] at h
    exact Except.ok.inj h
  · intro h
    rcases h with ⟨r, rfl⟩
    exact hlists r

/-- Testing panics where opening does. -/
theorem test_eq_panic_iff {why : Panic} :
    test host path disk = .error (.panic why) ↔
      openPacked host path disk = .error (.panic why) := by
  rw [test_eq]
  refine bind_eq_panic_iff fun ⟨buf, size, header, payload⟩ _ => ?_
  exact (withContext_clean (decompress_clean ..) _).bind fun _ _ => clean_ok ()

/-- Listing panics where opening does: a container that was opened is still one. -/
theorem list_eq_panic_iff (hcalm : host.os.Calm) {why : Panic} :
    list host path disk = .error (.panic why) ↔
      openPacked host path disk = .error (.panic why) := by
  rw [list_eq]
  refine bind_eq_panic_iff fun ⟨buf, size, header, payload⟩ hopen => ?_
  refine (withContext_clean (decompress_clean ..) _).bind fun original hdecompress => ?_
  rcases exists_reading hcalm hopen (withContext_eq_ok_iff.mp hdecompress) with ⟨r, hbuf, -⟩
  rw [← hbuf, r.located, liftPanic_ok, ok_bind]
  cases r.offset with
  | zero => exact clean_ok _
  | succ before => exact clean_ok _

/-! ## Restore -/

section Restore

variable [DecidableEq κ]

/-- What `unpack` does with the container it has opened. -/
def unpackOpened (host : Host κ) (path : Path) (force : Bool) (header : Header)
    (payload : Bytes) : Program (Disk κ) Error Unit := do
  let restored ← Program.lift (decompress host.backend header.codec payload)
  let outPath ← Program.lift (host.unpackOutput path header.name)
  Program.query (checkOutput host outPath force)
  Program.query fun disk =>
    ensure (pathIsDir host.os outPath disk = false) [s!"output {display outPath} is a directory"]
  ioContext (writeFile host.os outPath restored) s!"cannot write to {display outPath}"
  if host.target.unix && looksExecutable restored then makeExecutable host outPath

theorem run_unpack_eq (host : Host κ) (path : Path) (force : Bool) (disk : Disk κ) :
    (unpack host path force).run disk = (Program.query (openPacked host path) >>= fun opened =>
      unpackOpened host path force opened.2.2.1 opened.2.2.2).run disk := by
  unfold unpack
  cases hread : readInputFile host path disk with
  | error fault =>
      have hopen : openPacked host path disk = .error fault := by
        rw [openPacked, hread]
        rfl
      rw [Program.run_query_bind_of_error hread, Program.run_query_bind_of_error hopen]
  | ok buf =>
      rw [Program.run_query_bind_of_ok hread]
      cases hcontainer : openContainer host buf path with
      | error fault =>
          have hopen : openPacked host path disk = .error fault := by
            rw [openPacked, hread, ok_bind, hcontainer]
            rfl
          rw [Program.run_query_bind_of_error hopen]
          exact Program.run_query_bind_of_error rfl
      | ok opened =>
          have hopen : openPacked host path disk = .ok (buf, opened) := by
            rw [openPacked, hread, ok_bind, hcontainer]
            rfl
          rw [Program.run_query_bind_of_ok hopen]
          exact Program.run_query_bind_of_ok rfl

omit [DecidableEq κ] in
/-- What is no directory is none for the program either. -/
theorem pathIsDir_of_calm (hcalm : host.os.Calm) {out : Path} :
    pathIsDir host.os out disk = false ↔ disk (host.os.resolve out) ≠ some .directory := by
  unfold pathIsDir metadata
  rw [hcalm.stat]
  cases disk (host.os.resolve out) with
  | none => simp
  | some node => cases node <;> simp [Node.isFile]

/-- Where no call fails, a file is restored with the mode it should have. -/
theorem restore_of_calm (hcalm : host.os.Calm) {out : Path} (restored : Bytes)
    (hdir : disk (host.os.resolve out) ≠ some .directory) :
    (do
      ioContext (writeFile host.os out restored) s!"cannot write to {display out}"
      if host.target.unix && looksExecutable restored then makeExecutable host out
        : Program (Disk κ) Error Unit).run disk =
      (.ok (), disk.put (host.os.resolve out) restored (host.restoredMode out restored disk)) := by
  rw [Program.run_bind_of_ok (run_ioContext_of_ok (writeFile_of_calm hcalm restored hdir))]
  unfold Host.restoredMode
  cases host.target.unix && looksExecutable restored with
  | false => rfl
  | true => exact run_ioContext_of_ok (setPermissions_of_calm hcalm out disk restored _ _)

/-- It restores the original, where its output is free. -/
theorem unpackOpened_eq_ok_iff (hcalm : host.os.Calm) {force : Bool} {header : Header}
    {payload : Bytes} {disk' : Disk κ} :
    (unpackOpened host path force header payload).run disk = (.ok (), disk') ↔
      ∃ restored out, decompress host.backend header.codec payload = .ok restored ∧
        host.unpackOutput path header.name = .ok out ∧
        ¬(pathExists host.os out disk = true ∧ force = false) ∧
        disk (host.os.resolve out) ≠ some .directory ∧
        disk.put (host.os.resolve out) restored (host.restoredMode out restored disk) = disk' := by
  unfold unpackOpened
  constructor
  · intro h
    rcases Program.run_query_bind_eq_ok_iff.mp h with ⟨restored, hrestored, hrest⟩
    rcases Program.run_query_bind_eq_ok_iff.mp hrest with ⟨out, hout, hrest⟩
    rcases Program.run_query_bind_eq_ok_iff.mp hrest with ⟨_, hfree, hrest⟩
    rcases Program.run_query_bind_eq_ok_iff.mp hrest with ⟨_, hplace, hrest⟩
    have hdir := (pathIsDir_of_calm hcalm).mp (ensure_eq_ok_iff.mp hplace)
    rw [restore_of_calm hcalm restored hdir] at hrest
    exact ⟨restored, out, hrestored, hout, ensure_eq_ok_iff.mp hfree, hdir,
      (Prod.mk.inj hrest).2⟩
  · intro h
    rcases h with ⟨restored, out, hrestored, hout, hfree, hdir, rfl⟩
    have hplace := (pathIsDir_of_calm hcalm).mpr hdir
    refine Program.run_query_bind_eq_ok_iff.mpr ⟨restored, hrestored, ?_⟩
    refine Program.run_query_bind_eq_ok_iff.mpr ⟨out, hout, ?_⟩
    refine Program.run_query_bind_eq_ok_iff.mpr ⟨(), ensure_of _ hfree, ?_⟩
    refine Program.run_query_bind_eq_ok_iff.mpr ⟨(), ensure_of _ hplace, ?_⟩
    exact restore_of_calm hcalm restored hdir

/-- And does not panic. -/
theorem unpackOpened_clean (hcalm : host.os.Calm) (force : Bool) (header : Header)
    (payload : Bytes) :
    Clean ((unpackOpened host path force header payload).run disk).1 := by
  unfold unpackOpened
  refine Program.query_bind_clean (decompress_clean ..) fun restored _ => ?_
  refine Program.query_bind_clean (host.unpackOutput_clean ..) fun out _ => ?_
  refine Program.query_bind_clean (clean_ensure _ _) fun _ _ => ?_
  refine Program.query_bind_clean (clean_ensure _ _) fun _ hplace => ?_
  rw [restore_of_calm hcalm restored
    ((pathIsDir_of_calm hcalm).mp (ensure_eq_ok_iff.mp hplace))]
  exact clean_ok ()

/-- Where no call fails, a file is unpacked exactly when it has a reading and the place of its
output is free, and its output is then all that changes. -/
theorem unpack_eq_ok_iff (hcalm : host.os.Calm) {force : Bool} {disk' : Disk κ} :
    (unpack host path force).run disk = (.ok (), disk') ↔
      ∃ (r : Reading host disk path) (out : Path), host.unpackOutput path r.header.name = .ok out ∧
        ¬(pathExists host.os out disk = true ∧ force = false) ∧
        disk (host.os.resolve out) ≠ some .directory ∧
        disk.put (host.os.resolve out) r.original
          (host.restoredMode out r.original disk) = disk' := by
  rw [run_unpack_eq, Program.run_query_bind_eq_ok_iff]
  constructor
  · intro h
    rcases h with ⟨⟨buf, size, header, payload⟩, hopen, hrest⟩
    rcases (unpackOpened_eq_ok_iff hcalm).mp hrest with
      ⟨restored, out, hrestored, hout, hfree, hdir, hput⟩
    rcases exists_reading hcalm hopen hrestored with ⟨r, -, -, rfl, -, rfl⟩
    exact ⟨r, out, hout, hfree, hdir, hput⟩
  · intro h
    rcases h with ⟨r, out, hout, hfree, hdir, hput⟩
    exact ⟨_, r.opened hcalm, (unpackOpened_eq_ok_iff hcalm).mpr
      ⟨r.original, out, r.decompressed, hout, hfree, hdir, hput⟩⟩

/-- Unpacking panics where opening does. -/
theorem unpack_eq_panic_iff (hcalm : host.os.Calm) {force : Bool} {why : Panic} :
    ((unpack host path force).run disk).1 = .error (.panic why) ↔
      openPacked host path disk = .error (.panic why) := by
  rw [run_unpack_eq]
  cases hopen : openPacked host path disk with
  | error fault => simp [Program.run_query_bind_of_error hopen]
  | ok opened =>
      rw [Program.run_query_bind_of_ok hopen]
      have hrest : Clean ((unpackOpened host path force opened.2.2.1 opened.2.2.2).run disk).1 :=
        unpackOpened_clean hcalm force _ _
      rcases hrest with ⟨_, hok⟩ | ⟨e, herror⟩
      · simp [hok]
      · simp [herror]

/-! ## All three -/

/-- Where no call fails, the reading commands make the same of every file: it passes its test
exactly when it can be listed, and exactly when its original could be restored; what is listed
is the name, codec and size of what unpacking then leaves at a free output, and that is all it
changes.  They trip over the same files, with the same panic. -/
theorem readers_agree (hcalm : host.os.Calm) (path : Path) (disk : Disk κ) :
    (test host path disk = .ok () ↔ Nonempty (Reading host disk path)) ∧
      (∀ listing, list host path disk = .ok listing ↔
        ∃ r : Reading host disk path, r.listing = listing) ∧
      (∀ force disk', (unpack host path force).run disk = (.ok (), disk') ↔
        ∃ (r : Reading host disk path) (out : Path),
          host.unpackOutput path r.header.name = .ok out ∧
          ¬(pathExists host.os out disk = true ∧ force = false) ∧
          disk (host.os.resolve out) ≠ some .directory ∧
          disk.put (host.os.resolve out) r.original
            (host.restoredMode out r.original disk) = disk') ∧
      ∀ why force,
        (test host path disk = .error (.panic why) ↔
          ∃ file mode, disk (host.os.resolve path) = some (.file file mode) ∧
            Trips host file why) ∧
        (list host path disk = .error (.panic why) ↔
          ∃ file mode, disk (host.os.resolve path) = some (.file file mode) ∧
            Trips host file why) ∧
        (((unpack host path force).run disk).1 = .error (.panic why) ↔
          ∃ file mode, disk (host.os.resolve path) = some (.file file mode) ∧
            Trips host file why) := by
  refine ⟨test_eq_ok_iff hcalm, fun _ => list_eq_ok_iff hcalm,
    fun _ _ => unpack_eq_ok_iff hcalm, fun why force => ?_⟩
  rw [test_eq_panic_iff, list_eq_panic_iff hcalm, unpack_eq_panic_iff hcalm,
    openPacked_eq_panic_iff hcalm]
  exact ⟨Iff.rfl, Iff.rfl, Iff.rfl⟩

end Restore

end Readers

/-- No call fails on `plainOs`. -/
theorem plainOs_calm : plainOs.Calm where
  stat _ _ := rfl
  opens _ _ := rfl
  reads _ _ := rfl
  creates _ _ := rfl
  writes _ _ _ := rfl
  chmods _ _ := rfl

/-- A bare container of `hi.txt`, and nothing else. -/
def bareDisk : Disk Path := fun path =>
  if path = asBytes "hi.txt.upxz" then
    some (.file (Header.encode ⟨"hi.txt", .zstd⟩ ++ storedFrame (asBytes "hi")) 0o644)
  else none

/-- It is tested, listed and restored. -/
theorem readers_agree_bare :
    test linuxHost (asBytes "hi.txt.upxz") bareDisk = .ok () ∧
      list linuxHost (asBytes "hi.txt.upxz") bareDisk =
        .ok ⟨"upxz container", "zstd", "hi.txt", 29, none, 2⟩ ∧
      (unpack linuxHost (asBytes "hi.txt.upxz") false).run bareDisk =
        (.ok (), bareDisk.put (asBytes "hi.txt") (asBytes "hi") 0o644) := by
  have hcalm : linuxHost.os.Calm := plainOs_calm
  have hagree := readers_agree hcalm (asBytes "hi.txt.upxz") bareDisk
  let r : Reading linuxHost bareDisk (asBytes "hi.txt.upxz") :=
    { buf := Header.encode ⟨"hi.txt", .zstd⟩ ++ storedFrame (asBytes "hi")
      mode := 0o644
      offset := 0
      size := 29
      header := ⟨"hi.txt", .zstd⟩
      payload := storedFrame (asBytes "hi")
      original := asBytes "hi"
      read := by decide
      addressable := by decide
      located := by decide
      parsed := ⟨18, by decide, by decide⟩
      decompressed := by decide }
  refine ⟨hagree.1.mpr ⟨r⟩, (hagree.2.1 _).mpr ⟨r, rfl⟩, (hagree.2.2.1 false _).mpr ?_⟩
  exact ⟨r, asBytes "hi.txt", by decide, by decide, by decide, rfl⟩

end Cli
end Upxz
