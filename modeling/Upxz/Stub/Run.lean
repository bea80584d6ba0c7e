import Upxz.Machine.ShortWrites
import Upxz.Stub.Parse

/-!
# Stub - Running a Linux self-extractor

Steps 5 to 7 of `stub/src/main.rs`: decompress the payload, write it to a memfd
through a loop of short writes, and hand the memfd to `fexecve` with the stored
name, the arguments and the environment.  Arguments and environment entries are
byte strings; `std::env` turns them into strings on the way and panics on those
that are not UTF-8.

Main results:

- Theorem `runToFexecve_eq_ok_iff`: the stub reaches `fexecve` exactly when every
  step succeeds, with the decompressed payload in the memfd.
- Theorem `linux_sfx_materialises_original`: a packed image puts exactly the
  original into the memfd, under the stored name.
- Theorem `forwards_verbatim_iff`: the invocation is forwarded verbatim exactly
  when every argument and every environment entry is UTF-8.
-/

namespace Upxz
namespace Stub

open Machine Format

/-! ## The kernel -/

/-- `MFD_EXEC`. -/
def mfdExec : Nat := 0x0010

/-- `EINVAL`. -/
def einval : Errno := 22

/-- The system calls the stub makes before `fexecve`. -/
structure Kernel where
  memfdCreate : (flags : Nat) → Except Errno Nat
  write : WriteCalls

/-- Create an executable memfd; a kernel without `MFD_EXEC` is asked again
without flags. -/
def createExecMemfd (kernel : Kernel) : Except Errno Nat :=
  match kernel.memfdCreate mfdExec with
  | .ok fd => .ok fd
  | .error errno => if errno = einval then kernel.memfdCreate 0 else .error errno

/-! ## Decompression and the memfd -/

/-- Step 5: dispatch on the codec byte. -/
def decompressPayload (backend : Backend) (codecByte : UInt8) (payload : Bytes) :
    Exec String Bytes :=
  if codecByte = codecZstd then
    match backend.zstdDecodeAll payload with
    | .ok original => .ok original
    | .error e => .error (.err s!"zstd decompression failed: {e}")
  else if codecByte = codecGzip then
    match backend.gzDecode payload with
    | .ok original => .ok original
    | .error e => .error (.err s!"gzip decompression failed: {e}")
  else .error (.err s!"internal error: unhandled codec id {codecByte}")

/-- Step 6: write the original to a fresh memfd; `fuel` bounds the loop. -/
def writeMemfd (kernel : Kernel) (fuel : Nat) (original : Bytes) : Exec String Bytes :=
  match writeLoop .retry kernel.write original fuel 0 0 [] with
  | .done content => .ok content
  | .failed errno _ => .error (.err s!"write to memfd failed (errno {errno.getD 0})")
  | .running _ => .error .timeout

/-! ## Arguments and environment -/

/-- `OsString::into_string().unwrap()`. -/
def intoString (s : Bytes) : Exec String String :=
  match fromUtf8 s with
  | .ok text => .ok text
  | .error _ => .error (.panic .notUnicode)

/-- `CString::new`: the bytes must not contain a NUL. -/
def cString (s : Bytes) (message : String) : Exec String Bytes := do
  ensure (0 ∉ s) message
  return s

/-- One forwarded argument. -/
def forwardArg (a : Bytes) : Exec String Bytes := do
  let text ← intoString a
  cString (asBytes text) "an argument contains an interior NUL"

/-- `argv`: the stored name, then the arguments but the first.  `skip(1)` still
converts the argument it drops. -/
def buildArgv (name : String) (args : List Bytes) : Exec String (List Bytes) := do
  let argv0 ← cString (asBytes name) "stored name contains an interior NUL"
  let _ ← (args.take 1).mapM intoString
  let rest ← (args.drop 1).mapM forwardArg
  return argv0 :: rest

/-- The byte `=`. -/
def equalsSign : UInt8 := 0x3D

/-- How `std::env::vars` splits an entry: at the first `=` that leaves a name;
other entries are skipped. -/
def parseEntry (entry : Bytes) : Option (Bytes × Bytes) :=
  match entry with
  | [] => none
  | b :: rest =>
      if equalsSign ∈ rest then
        let pos := rest.idxOf equalsSign
        some (b :: rest.take pos, rest.drop (pos + 1))
      else none

/-- One forwarded environment variable. -/
def forwardVar (kv : Bytes × Bytes) : Exec String Bytes := do
  let key ← intoString kv.1
  let value ← intoString kv.2
  cString (asBytes (key ++ "=" ++ value)) "an environment variable contains an interior NUL"

/-- `envp`: every entry split by `std::env::vars` and put together again. -/
def buildEnvp (env : List Bytes) : Exec String (List Bytes) :=
  (env.filterMap parseEntry).mapM forwardVar

/-! ## The run -/

/-- The `fexecve` call a run arrives at. -/
structure FexecveCall where
  fd : Nat
  content : Bytes
  argv : List Bytes
  envp : List Bytes
deriving DecidableEq, Repr

/-- `run` on its own image, up to the `fexecve` call. -/
def runToFexecve (mode : Overflow) (backend : Backend) (kernel : Kernel) (fuel : Nat)
    (image : Bytes) (args env : List Bytes) : Exec String FexecveCall := do
  let (codecByte, name, payload) ← parseImage mode image
  let original ← decompressPayload backend codecByte payload
  match createExecMemfd kernel with
  | .error errno => .error (.err s!"memfd_create failed (errno {errno})")
  | .ok fd => do
      let content ← writeMemfd kernel fuel original
      let argv ← buildArgv name args
      let envp ← buildEnvp env
      return ⟨fd, content, argv, envp⟩

/-! ## What each step returns -/

/-- The stub's dispatch and the reader's agree on every codec. -/
theorem decompressPayload_eq_ok_iff {backend : Backend} {codec : Codec}
    {payload original : Bytes} :
    decompressPayload backend codec.id payload = .ok original ↔
      decompress backend codec payload = .ok original := by
  cases codec with
  | zstd =>
      rw [decompressPayload, if_pos (show Codec.zstd.id = codecZstd from rfl), decompress,
        libraryContext_eq_ok_iff]
      cases backend.zstdDecodeAll payload <;> simp
  | gzip =>
      rw [decompressPayload, if_neg (show Codec.gzip.id ≠ codecZstd by decide),
        if_pos (show Codec.gzip.id = codecGzip from rfl), decompress, libraryContext_eq_ok_iff]
      cases backend.gzDecode payload <;> simp

/-- The dispatch on the codec byte returns or reports an error. -/
theorem decompressPayload_clean (backend : Backend) (codecByte : UInt8) (payload : Bytes) :
    Clean (decompressPayload backend codecByte payload) := by
  unfold decompressPayload
  split_ifs
  · cases backend.zstdDecodeAll payload with
    | ok original => exact clean_ok original
    | error e => exact clean_err _
  · cases backend.gzDecode payload with
    | ok original => exact clean_ok original
    | error e => exact clean_err _
  · exact clean_err _

/-- Under short writes the memfd ends up with exactly the original. -/
theorem writeMemfd_ok {kernel : Kernel} (hshort : kernel.write.Short) {fuel : Nat}
    {original : Bytes} (hfuel : original.length ≤ fuel) :
    writeMemfd kernel fuel original = .ok original := by
  have hloop : writeLoop .retry kernel.write original fuel 0 0 (overlay original [] 0) =
      .done (overlay original [] original.length) :=
    writeLoop_done hshort original [] (Nat.zero_le _) hfuel
  rw [overlay_zero, overlay_length_eq_iff.mpr (Nat.zero_le _)] at hloop
  rw [writeMemfd, hloop]

/-- The memfd gets the original where its writes take all of it; a write that fails is
reported. -/
theorem writeMemfd_cases (kernel : Kernel) (fuel : Nat) (original : Bytes) :
    writeMemfd kernel fuel original = .ok original ∧ kernel.write.Takes 0 original.length ∨
      (∃ message, writeMemfd kernel fuel original = .error (.err message)) ∧
        ¬kernel.write.Takes 0 original.length ∨
      writeMemfd kernel fuel original = .error .timeout := by
  have hcases := writeLoop_cases kernel.write original fuel 0 0
  rw [List.take_zero, Nat.sub_zero] at hcases
  rcases hcases with ⟨hdone, htakes⟩ | ⟨⟨errno, content, hfailed⟩, hnot⟩ | ⟨content, hrunning⟩
  · exact Or.inl ⟨by rw [writeMemfd, hdone], htakes⟩
  · exact Or.inr (Or.inl ⟨⟨_, by rw [writeMemfd, hfailed]⟩, hnot⟩)
  · exact Or.inr (Or.inr (by rw [writeMemfd, hrunning]))

/-- Writes that take all of the original come to an end. -/
theorem exists_writeMemfd_ok {kernel : Kernel} {original : Bytes}
    (h : kernel.write.Takes 0 original.length) :
    ∃ fuel, writeMemfd kernel fuel original = .ok original := by
  have hdone : ∃ fuel, writeLoop .retry kernel.write original fuel 0 0 [] = .done original :=
    h.exists_done rfl
  rcases hdone with ⟨fuel, hdone⟩
  exact ⟨fuel, by rw [writeMemfd, hdone]⟩

/-- More turns change nothing for a memfd that is written or failed. -/
theorem writeMemfd_mono {fuel fuel' : Nat} (hle : fuel ≤ fuel') (kernel : Kernel)
    (original : Bytes) :
    writeMemfd kernel fuel original = .error .timeout ∨
      writeMemfd kernel fuel' original = writeMemfd kernel fuel original := by
  have hloop : (∃ out, writeLoop .retry kernel.write original fuel 0 0 [] = .running out) ∨
      writeLoop .retry kernel.write original fuel' 0 0 [] =
        writeLoop .retry kernel.write original fuel 0 0 [] := writeLoop_mono hle
  rcases hloop with ⟨out, hrunning⟩ | hsame
  · exact Or.inl (by rw [writeMemfd, hrunning])
  · exact Or.inr (by rw [writeMemfd, writeMemfd, hsame])

/-- As many turns as bytes are enough where every write that succeeds advances. -/
theorem writeMemfd_ne_timeout {kernel : Kernel} (hadvances : kernel.write.Advances)
    {fuel : Nat} {original : Bytes} (hfuel : original.length ≤ fuel) :
    writeMemfd kernel fuel original ≠ .error .timeout := by
  have hloop : ∀ out, writeLoop .retry kernel.write original fuel 0 0 [] ≠ .running out :=
    writeLoop_ne_running hadvances hfuel
  intro htimeout
  unfold writeMemfd at htimeout
  split at htimeout
  · cases htimeout
  · cases htimeout
  · rename_i out hrunning
    exact hloop out hrunning

theorem intoString_eq_ok_iff {s : Bytes} {text : String} :
    intoString s = .ok text ↔ asBytes text = s := by
  rw [← fromUtf8_eq_ok_iff, intoString]
  cases fromUtf8 s <;> simp

theorem cString_eq_ok_iff {s t : Bytes} {message : String} :
    cString s message = .ok t ↔ 0 ∉ s ∧ s = t := by
  unfold cString
  rw [ensure_bind_eq_ok]
  simp [pure, Except.pure]

/-- An argument is forwarded unchanged or not at all. -/
theorem forwardArg_eq_ok_iff (a b : Bytes) :
    forwardArg a = .ok b ↔ (IsUtf8 a ∧ 0 ∉ a) ∧ a = b := by
  unfold forwardArg
  rw [bind_eq_ok_iff]
  constructor
  · intro h
    rcases h with ⟨text, htext, hc⟩
    rw [intoString_eq_ok_iff] at htext
    rw [htext, cString_eq_ok_iff] at hc
    exact ⟨⟨⟨text, htext⟩, hc.1⟩, hc.2⟩
  · intro h
    rcases h with ⟨⟨⟨text, htext⟩, hnul⟩, rfl⟩
    refine ⟨text, intoString_eq_ok_iff.mpr htext, ?_⟩
    rw [htext]
    exact cString_eq_ok_iff.mpr ⟨hnul, rfl⟩

/-- A list of strings converts when each of them is UTF-8. -/
theorem exists_mapM_intoString_iff {xs : List Bytes} :
    (∃ texts, xs.mapM intoString = .ok texts) ↔ ∀ a ∈ xs, IsUtf8 a := by
  induction xs with
  | nil => simp [pure, Except.pure]
  | cons a xs ih =>
      rw [List.forall_mem_cons, ← ih]
      simp only [List.mapM_cons, bind_eq_ok_iff, intoString_eq_ok_iff]
      constructor
      · intro h
        rcases h with ⟨-, text, htext, texts, htexts, -⟩
        exact ⟨⟨text, htext⟩, texts, htexts⟩
      · intro h
        rcases h with ⟨⟨text, htext⟩, texts, htexts⟩
        exact ⟨text :: texts, text, htext, texts, htexts, rfl⟩

/-- The argument vector is the stored name and the arguments but the first,
unchanged, and needs every argument to be UTF-8. -/
theorem buildArgv_eq_ok_iff {name : String} {args argv : List Bytes} :
    buildArgv name args = .ok argv ↔
      0 ∉ asBytes name ∧ (∀ a ∈ args, IsUtf8 a) ∧ (∀ a ∈ args.drop 1, 0 ∉ a) ∧
        asBytes name :: args.drop 1 = argv := by
  have hforward : ∀ rest : List Bytes, (args.drop 1).mapM forwardArg = .ok rest ↔
      (∀ a ∈ args.drop 1, IsUtf8 a ∧ 0 ∉ a) ∧ args.drop 1 = rest := fun rest =>
    mapM_eq_ok_iff_of_verbatim fun a _ b => forwardArg_eq_ok_iff a b
  have hsplit : (∀ a ∈ args, IsUtf8 a) ↔
      (∀ a ∈ args.take 1, IsUtf8 a) ∧ ∀ a ∈ args.drop 1, IsUtf8 a := by
    nth_rewrite 1 [← List.take_append_drop 1 args]
    exact List.forall_mem_append
  rw [hsplit, ← exists_mapM_intoString_iff]
  simp only [buildArgv, bind_eq_ok_iff, cString_eq_ok_iff, hforward, pure, Except.pure,
    Except.ok.injEq]
  constructor
  · intro h
    rcases h with ⟨argv0, ⟨hname, rfl⟩, texts, htexts, rest, ⟨hrest, rfl⟩, hargv⟩
    exact ⟨hname, ⟨⟨texts, htexts⟩, fun a ha => (hrest a ha).1⟩, fun a ha => (hrest a ha).2, hargv⟩
  · intro h
    rcases h with ⟨hname, ⟨⟨texts, htexts⟩, hutf8⟩, hnul, hargv⟩
    exact ⟨_, ⟨hname, rfl⟩, texts, htexts, _, ⟨fun a ha => ⟨hutf8 a ha, hnul a ha⟩, rfl⟩, hargv⟩

/-- An environment entry `KEY=VALUE` with a non-empty key. -/
def IsEntry (entry : Bytes) : Prop :=
  equalsSign ∈ entry.tail

instance (entry : Bytes) : Decidable (IsEntry entry) :=
  inferInstanceAs (Decidable (equalsSign ∈ entry.tail))

/-- Splitting an entry and joining it again gives it back. -/
theorem parseEntry_of_isEntry {entry : Bytes} (h : IsEntry entry) :
    ∃ key value, parseEntry entry = some (key, value) ∧ key ++ equalsSign :: value = entry := by
  cases entry with
  | nil => simp [IsEntry] at h
  | cons b rest =>
      have hmem : equalsSign ∈ rest := h
      refine ⟨_, _, if_pos hmem, ?_⟩
      have hlt : rest.idxOf equalsSign < rest.length := List.idxOf_lt_length_iff.mpr hmem
      have hdrop := List.drop_eq_getElem_cons hlt
      rw [List.getElem_idxOf hlt] at hdrop
      rw [List.cons_append, ← hdrop, List.take_append_drop]

theorem parseEntry_of_not_isEntry {entry : Bytes} (h : ¬IsEntry entry) :
    parseEntry entry = none := by
  cases entry with
  | nil => rfl
  | cons b rest => exact if_neg h

/-- A variable is forwarded as the entry it was split from, unchanged or not at
all. -/
theorem forwardVar_eq_ok_iff {key value entry out : Bytes}
    (hentry : key ++ equalsSign :: value = entry) :
    forwardVar (key, value) = .ok out ↔ (IsUtf8 entry ∧ 0 ∉ entry) ∧ entry = out := by
  have hsplit : IsUtf8 entry ↔ IsUtf8 key ∧ IsUtf8 value := by
    rw [← hentry]
    exact isUtf8_append_ascii (by decide)
  have hjoin : ∀ k v : String, asBytes k = key → asBytes v = value →
      asBytes (k ++ "=" ++ v) = entry := by
    intro k v hk hv
    have hequals : asBytes "=" = [equalsSign] := by decide
    rw [asBytes_append, asBytes_append, hk, hv, hequals, ← hentry]
    simp
  rw [hsplit]
  simp only [forwardVar, bind_eq_ok_iff, intoString_eq_ok_iff, cString_eq_ok_iff]
  constructor
  · intro h
    rcases h with ⟨k, hk, v, hv, hnul, hout⟩
    rw [hjoin k v hk hv] at hnul hout
    exact ⟨⟨⟨⟨k, hk⟩, ⟨v, hv⟩⟩, hnul⟩, hout⟩
  · intro h
    rcases h with ⟨⟨⟨⟨k, hk⟩, ⟨v, hv⟩⟩, hnul⟩, hout⟩
    refine ⟨k, hk, v, hv, ?_⟩
    rw [hjoin k v hk hv]
    exact ⟨hnul, hout⟩

/-- One entry, split and put together again. -/
def forwardEntry (entry : Bytes) : Exec String Bytes :=
  match parseEntry entry with
  | some kv => forwardVar kv
  | none => .ok entry

/-- The environment is forwarded entry by entry, less the malformed ones. -/
theorem buildEnvp_eq_mapM (env : List Bytes) :
    buildEnvp env = (env.filter fun entry => IsEntry entry).mapM forwardEntry := by
  unfold buildEnvp
  induction env with
  | nil => rfl
  | cons entry env ih =>
      by_cases hentry : IsEntry entry
      · rcases parseEntry_of_isEntry hentry with ⟨key, value, hparse, -⟩
        rw [List.filterMap_cons_some hparse, List.filter_cons_of_pos (by simpa using hentry),
          List.mapM_cons, List.mapM_cons, ih]
        simp only [forwardEntry, hparse]
      · rw [List.filterMap_cons_none (parseEntry_of_not_isEntry hentry),
          List.filter_cons_of_neg (by simpa using hentry), ih]

/-- The environment vector is the well-formed entries, unchanged, and needs each
of them to be UTF-8. -/
theorem buildEnvp_eq_ok_iff {env envp : List Bytes} :
    buildEnvp env = .ok envp ↔
      (∀ entry ∈ env.filter fun entry => IsEntry entry, IsUtf8 entry ∧ 0 ∉ entry) ∧
        (env.filter fun entry => IsEntry entry) = envp := by
  rw [buildEnvp_eq_mapM]
  apply mapM_eq_ok_iff_of_verbatim
  intro entry hmem out
  have hentry : IsEntry entry := by simpa using (List.mem_filter.mp hmem).2
  rcases parseEntry_of_isEntry hentry with ⟨key, value, hparse, hjoin⟩
  rw [forwardEntry, hparse]
  exact forwardVar_eq_ok_iff hjoin

/-- The stub reaches `fexecve` exactly when each of its steps returns. -/
theorem runToFexecve_eq_ok_iff {mode : Overflow} {backend : Backend} {kernel : Kernel}
    {fuel : Nat} {image : Bytes} {args env : List Bytes} {call : FexecveCall} :
    runToFexecve mode backend kernel fuel image args env = .ok call ↔
      ∃ codecByte name payload original,
        parseImage mode image = .ok (codecByte, name, payload) ∧
        decompressPayload backend codecByte payload = .ok original ∧
        createExecMemfd kernel = .ok call.fd ∧
        writeMemfd kernel fuel original = .ok call.content ∧
        buildArgv name args = .ok call.argv ∧ buildEnvp env = .ok call.envp := by
  unfold runToFexecve
  rw [bind_eq_ok_iff]
  constructor
  · intro h
    rcases h with ⟨⟨codecByte, name, payload⟩, hparse, h⟩
    rcases bind_eq_ok_iff.mp h with ⟨original, hdecompress, h⟩
    split at h
    · cases h
    · rename_i fd hfd
      rcases bind_eq_ok_iff.mp h with ⟨content, hcontent, h⟩
      rcases bind_eq_ok_iff.mp h with ⟨argv, hargv, h⟩
      rcases bind_eq_ok_iff.mp h with ⟨envp, henvp, h⟩
      cases h
      exact ⟨codecByte, name, payload, original, hparse, hdecompress, hfd, hcontent, hargv, henvp⟩
  · intro h
    rcases h with
      ⟨codecByte, name, payload, original, hparse, hdecompress, hfd, hcontent, hargv, henvp⟩
    refine ⟨(codecByte, name, payload), hparse, ?_⟩
    simp only [hdecompress, ok_bind, hfd, hcontent, hargv, henvp]
    rfl

/-! ## What a packed image runs -/

/-- Arguments and environment as the kernel delivers them to a process. -/
structure Invocation where
  args : List Bytes
  env : List Bytes
  args_nulFree : ∀ a ∈ args, 0 ∉ a
  env_nulFree : ∀ entry ∈ env, 0 ∉ entry

/-- An invocation all of whose strings are UTF-8. -/
structure Invocation.Unicode (invocation : Invocation) : Prop where
  args : ∀ a ∈ invocation.args, IsUtf8 a
  env : ∀ entry ∈ invocation.env, IsUtf8 entry

/-- A UTF-8 invocation is forwarded whatever the kernel says to the memfd. -/
theorem Invocation.Unicode.buildEnvp {invocation : Invocation} (h : invocation.Unicode) :
    Stub.buildEnvp invocation.env =
      .ok (invocation.env.filter fun entry => IsEntry entry) := by
  refine buildEnvp_eq_ok_iff.mpr ⟨?_, rfl⟩
  intro entry hmem
  have hin := List.mem_of_mem_filter hmem
  exact ⟨h.env entry hin, invocation.env_nulFree entry hin⟩

theorem Invocation.Unicode.buildArgv {invocation : Invocation} (h : invocation.Unicode)
    {name : String} (hname : 0 ∉ asBytes name) :
    Stub.buildArgv name invocation.args = .ok (asBytes name :: invocation.args.drop 1) := by
  refine buildArgv_eq_ok_iff.mpr ⟨hname, h.args, ?_, rfl⟩
  intro a hmem
  exact invocation.args_nulFree a (List.mem_of_mem_drop hmem)

/-- Running what `pack_sfx_linux` wrote puts exactly the original into the memfd,
with the stored name as `argv[0]`, however the writes are split up. -/
theorem linux_sfx_materialises_original (mode : Overflow) (backend : Backend)
    (hround : backend.RoundTrip) (kernel : Kernel) (fuel : Nat) (invocation : Invocation)
    (embedded raw payload : Bytes) (name : String) (codec : Codec) (level : Int)
    (chunks : List Bytes) (hname : (asBytes name).length ≤ maxNameLen)
    (hnul : 0 ∉ asBytes name) (hcompress : compress backend codec raw level = .ok payload)
    (hchunks : packSfxLinuxChunks embedded (Header.encode ⟨name, codec⟩) payload = .ok chunks)
    (hlen : chunks.flatten.length ≤ isizeMax) (hshort : kernel.write.Short)
    (hfuel : raw.length ≤ fuel) (hunicode : invocation.Unicode) :
    match createExecMemfd kernel with
    | .ok fd =>
        ∃ call, runToFexecve mode backend kernel fuel chunks.flatten invocation.args
            invocation.env = .ok call ∧
          call.fd = fd ∧ call.content = raw ∧ call.argv.head? = some (asBytes name)
    | .error errno =>
        runToFexecve mode backend kernel fuel chunks.flatten invocation.args invocation.env =
          .error (.err s!"memfd_create failed (errno {errno})") := by
  have hfits := nameFits_of_le hname
  have himage : stubImage embedded (Header.container ⟨name, codec⟩ payload hfits).bytes =
      chunks.flatten := by
    rw [← (stubChunks_eq_ok_iff.mp hchunks).2, Header.container_bytes]
    simp [stubImage]
  have hparse : parseImage mode chunks.flatten = .ok (codec.id, name, payload) :=
    (parseImage_eq_ok_iff hlen).mpr ⟨embedded, _, himage, rfl, rfl, rfl⟩
  have hdecompress : decompressPayload backend codec.id payload = .ok raw :=
    decompressPayload_eq_ok_iff.mpr (decompress_of_compress hround hcompress)
  split
  · rename_i fd hfd
    let call : FexecveCall :=
      { fd := fd
        content := raw
        argv := asBytes name :: invocation.args.drop 1
        envp := invocation.env.filter fun entry => IsEntry entry }
    refine ⟨call, runToFexecve_eq_ok_iff.mpr ?_, rfl, rfl, rfl⟩
    exact ⟨_, _, _, _, hparse, hdecompress, hfd, writeMemfd_ok hshort hfuel,
      hunicode.buildArgv hnul, hunicode.buildEnvp⟩
  · rename_i errno herrno
    simp only [runToFexecve, hparse, hdecompress, herrno, ok_bind]

/-- A kernel that takes every write whole. -/
def wholeWrites : Kernel where
  memfdCreate _ := .ok 3
  write _ offered := .ok offered

theorem wholeWrites_short : wholeWrites.write.Short :=
  fun _ offered h => ⟨offered, rfl, h, Nat.le_refl _⟩

/-- A kernel that takes one byte of every write. -/
def splitWrites : Kernel where
  memfdCreate _ := .ok 3
  write _ _ := .ok 1

theorem splitWrites_short : splitWrites.write.Short :=
  fun _ _ h => ⟨1, rfl, Nat.le_refl 1, h⟩

/-- A two-byte file, packed by storing, run with no arguments and written in two calls. -/
theorem linux_sfx_materialises_hi :
    ∃ call, runToFexecve .checked storedBackend splitWrites 2
        [elfStub.bytes, Header.encode ⟨"hi.txt", .zstd⟩, storedFrame (asBytes "hi"),
          be64 4].flatten [] [] = .ok call ∧
      call.fd = 3 ∧ call.content = asBytes "hi" ∧ call.argv.head? = some (asBytes "hi.txt") :=
  linux_sfx_materialises_original .checked storedBackend storedBackend_roundTrip splitWrites 2
    ⟨[], [], by decide, by decide⟩ elfStub.bytes (asBytes "hi") (storedFrame (asBytes "hi"))
    "hi.txt" .zstd 19 _ (by decide) (by decide) (by decide) (by decide) (by decide)
    splitWrites_short (by decide) ⟨by decide, by decide⟩

/-! ## Forwarding the invocation -/

/-- The run reaches `fexecve` with the stored name, the arguments but the first,
and the environment, all byte for byte. -/
def ForwardsVerbatim (mode : Overflow) (backend : Backend) (kernel : Kernel) (fuel : Nat)
    (image : Bytes) (name : String) (invocation : Invocation) : Prop :=
  ∃ call, runToFexecve mode backend kernel fuel image invocation.args invocation.env =
      .ok call ∧
    call.argv = asBytes name :: invocation.args.drop 1 ∧ call.envp = invocation.env

/-- An image with a valid container and a NUL-free name forwards its invocation
verbatim exactly when every argument and every environment entry is UTF-8. -/
theorem forwards_verbatim_iff (mode : Overflow) (backend : Backend) (kernel : Kernel)
    (fuel : Nat) (image : Bytes) (invocation : Invocation) (codecByte : UInt8) (name : String)
    (payload original : Bytes)
    (hparse : parseImage mode image = .ok (codecByte, name, payload))
    (hdecompress : decompressPayload backend codecByte payload = .ok original)
    (hnul : 0 ∉ asBytes name) (hmemfd : ∃ fd, createExecMemfd kernel = .ok fd)
    (hshort : kernel.write.Short) (hfuel : original.length ≤ fuel)
    (hentries : ∀ entry ∈ invocation.env, IsEntry entry) :
    ForwardsVerbatim mode backend kernel fuel image name invocation ↔
      (∀ a ∈ invocation.args, IsUtf8 a) ∧ ∀ entry ∈ invocation.env, IsUtf8 entry := by
  have hfilter : (invocation.env.filter fun entry => IsEntry entry) = invocation.env :=
    List.filter_eq_self.mpr fun entry hmem => decide_eq_true (hentries entry hmem)
  constructor
  · intro h
    rcases h with ⟨call, hrun, -, -⟩
    rcases runToFexecve_eq_ok_iff.mp hrun with
      ⟨codecByte', name', payload', original', hparse', -, -, -, hargv, henvp⟩
    refine ⟨(buildArgv_eq_ok_iff.mp hargv).2.1, ?_⟩
    intro entry hmem
    have hall := (buildEnvp_eq_ok_iff.mp henvp).1
    rw [hfilter] at hall
    exact (hall entry hmem).1
  · intro h
    rcases hmemfd with ⟨fd, hfd⟩
    have hunicode : invocation.Unicode := ⟨h.1, h.2⟩
    have henvp := hunicode.buildEnvp
    rw [hfilter] at henvp
    refine ⟨⟨fd, original, _, _⟩, runToFexecve_eq_ok_iff.mpr ?_, rfl, rfl⟩
    exact ⟨_, _, _, _, hparse, hdecompress, hfd, writeMemfd_ok hshort hfuel,
      hunicode.buildArgv hnul, henvp⟩

/-- An invocation in plain ASCII. -/
def asciiInvocation : Invocation where
  args := [asBytes "./packed", asBytes "-v"]
  env := [asBytes "HOME=/root"]
  args_nulFree := by decide
  env_nulFree := by decide

theorem forwards_verbatim_ascii :
    ForwardsVerbatim .checked storedBackend wholeWrites 2 hiImage "hi.txt" asciiInvocation :=
  (forwards_verbatim_iff .checked storedBackend wholeWrites 2 hiImage asciiInvocation codecZstd
    "hi.txt" (storedFrame (asBytes "hi")) (asBytes "hi") (by decide) (by decide) (by decide)
    ⟨3, rfl⟩ wholeWrites_short (by decide) (by decide)).mpr ⟨by decide, by decide⟩

/-- An invocation with one Latin-1 argument, `caf\xE9`. -/
def latin1Invocation : Invocation where
  args := [asBytes "./packed", [0x63, 0x61, 0x66, 0xE9]]
  env := [asBytes "HOME=/root"]
  args_nulFree := by decide
  env_nulFree := by decide

/-- The image is valid and runs to the argument vector, where the Latin-1 argument
makes it panic. -/
theorem latin1_argument_panics :
    runToFexecve .checked storedBackend wholeWrites 2 hiImage latin1Invocation.args
        latin1Invocation.env = .error (.panic .notUnicode) ∧
      ¬ForwardsVerbatim .checked storedBackend wholeWrites 2 hiImage "hi.txt"
        latin1Invocation := by
  have hpanic : runToFexecve .checked storedBackend wholeWrites 2 hiImage latin1Invocation.args
      latin1Invocation.env = .error (.panic .notUnicode) := by
    decide
  refine ⟨hpanic, ?_⟩
  intro h
  rcases h with ⟨call, hrun, -, -⟩
  rw [hpanic] at hrun
  cases hrun

end Stub
end Upxz
