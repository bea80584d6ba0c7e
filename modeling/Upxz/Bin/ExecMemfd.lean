import Upxz.Bin.Run
import Upxz.Cli.Vault
import Upxz.Machine.Decimal
import Upxz.Stub.Run

/-!
# Bin - Running an entry from memory

On Linux `upxz --bin` puts the entry it found into a memfd and hands that to `fexecve` or,
where that fails, to `execve` under its path in `/proc`.  The definitions follow
`exec_memfd_linux` in `bin_run.rs`.  A call of the exec family that succeeds does not
return.

Main results:

- Theorem `execMemfdLinux_eq_ok_iff`: what is started, and when.
- Theorem `bin_starts_on_linux_iff`: `--bin` starts exactly what the archive offers, with
  the trailing arguments and the environment byte for byte.
-/

namespace Upxz
namespace Bin

open Machine Format Cli

/-! ## The kernel -/

/-- The system calls, and the text of their errors.  For the exec family, no error means
that another program runs now. -/
structure LinuxKernel extends Stub.Kernel where
  fexecve : (fd : Nat) → (content : Bytes) → (argv envp : List Bytes) → Option Errno
  execve : (path content : Bytes) → (argv envp : List Bytes) → Option Errno
  osError : Errno → String

/-- The environment as the kernel delivers it. -/
structure Environment where
  entries : List Bytes
  nulFree : ∀ entry ∈ entries, 0 ∉ entry

/-- The call that started a program. -/
inductive Route where
  | fexecve
  | procFd
deriving DecidableEq, Repr

/-- A program that was started from a memfd. -/
structure Started where
  route : Route
  fd : Nat
  content : Bytes
  argv : List Bytes
  envp : List Bytes
deriving DecidableEq, Repr

/-! ## The steps -/

/-- Create an executable memfd, on kernels without `MFD_EXEC` too. -/
def createExecMemfd (kernel : LinuxKernel) : Exec Error Nat :=
  match Stub.createExecMemfd kernel.toKernel with
  | .ok fd => .ok fd
  | .error errno => .error (.err ["memfd_create failed", kernel.osError errno])

/-- Write the entry to the memfd; `fuel` bounds the loop. -/
def writeMemfd (kernel : LinuxKernel) (fuel : Nat) (bytes : Bytes) : Exec Error Bytes :=
  match writeLoop .retry kernel.write bytes fuel 0 0 [] with
  | .done content => .ok content
  | .failed errno _ => .error (.err ["memfd write failed", kernel.osError (errno.getD 0)])
  | .running _ => .error .timeout

/-- `CString::new`. -/
def cString (s : Bytes) : Except String Bytes :=
  if 0 ∈ s then .error s!"nul byte found in provided data at position: {s.idxOf 0}" else .ok s

/-- `argv`: the name and the trailing arguments. -/
def buildArgv (name : String) (trailing : List String) : Exec Error (List Bytes) := do
  let argv0 ← libraryContext (cString (asBytes name)) "argv[0] contains a NUL byte"
  let rest ← (trailing.map asBytes).mapM fun a =>
    libraryContext (cString a) "trailing arg contains a NUL byte"
  return argv0 :: rest

/-- `envp`: what `std::env::vars_os` lists, put together again. -/
def Environment.vector (env : Environment) : List Bytes :=
  (env.entries.filterMap Stub.parseEntry).map fun kv => kv.1 ++ Stub.equalsSign :: kv.2

/-- Where an open file is found under `/proc`. -/
def procPath (fd : Nat) : Bytes :=
  asBytes "/proc/self/fd/" ++ decimal fd

/-- Run `bytes` under a name from a memfd. -/
def execMemfdLinux (kernel : LinuxKernel) (fuel : Nat) (name : String) (bytes : Bytes)
    (trailing : List String) (env : Environment) : Exec Error Started := do
  let fd ← createExecMemfd kernel
  let content ← writeMemfd kernel fuel bytes
  let argv ← buildArgv name trailing
  let envp := env.vector
  match kernel.fexecve fd content argv envp with
  | none => return ⟨.fexecve, fd, content, argv, envp⟩
  | some err =>
      match kernel.execve (procPath fd) content argv envp with
      | none => return ⟨.procFd, fd, content, argv, envp⟩
      | some err₂ =>
          bail (s!"fexecve failed ({kernel.osError err}); " ++
            s!"/proc/self/fd fallback also failed ({kernel.osError err₂})")

/-- `upxz --bin` on Linux. -/
def binLinux {κ τ : Type} (host : Host κ) (lib : ArchiveLibrary τ) (kernel : LinuxKernel)
    (fuel : Nat) (archive : Path) (innerPath : String) (trailing : List String)
    (env : Environment) (disk : Disk κ) : Exec Error Started := do
  let call ← run host lib archive innerPath trailing disk
  execMemfdLinux kernel fuel call.name call.bytes call.trailing env

/-! ## What the steps return -/

section Steps

variable {kernel : LinuxKernel} {fuel : Nat} {bytes : Bytes}

theorem createExecMemfd_eq_ok_iff {fd : Nat} :
    createExecMemfd kernel = .ok fd ↔ Stub.createExecMemfd kernel.toKernel = .ok fd := by
  unfold createExecMemfd
  cases Stub.createExecMemfd kernel.toKernel <;> simp

/-- Once it is written the memfd holds the entry, however the writes were split up. -/
theorem writeMemfd_eq_ok (hshort : kernel.write.Short) {content : Bytes}
    (h : writeMemfd kernel fuel bytes = .ok content) : content = bytes := by
  unfold writeMemfd at h
  split at h
  · rename_i out hloop
    cases h
    have hcontent : content = overlay bytes [] bytes.length :=
      eq_of_writeLoop_done hshort (Nat.zero_le _) (by rw [overlay_zero]; exact hloop)
    rw [hcontent, overlay_length_eq_iff.mpr (Nat.zero_le _)]
  · cases h
  · cases h

/-- With enough turns it is written. -/
theorem writeMemfd_of_le (hshort : kernel.write.Short) (hfuel : bytes.length ≤ fuel) :
    writeMemfd kernel fuel bytes = .ok bytes := by
  have hloop : writeLoop .retry kernel.write bytes fuel 0 0 (overlay bytes [] 0) =
      .done (overlay bytes [] bytes.length) :=
    writeLoop_done hshort bytes [] (Nat.zero_le _) hfuel
  rw [overlay_zero, overlay_length_eq_iff.mpr (Nat.zero_le _)] at hloop
  rw [writeMemfd, hloop]

theorem cString_eq_ok_iff {s t : Bytes} : cString s = .ok t ↔ 0 ∉ s ∧ s = t := by
  unfold cString
  split_ifs with hnul
  · simp [hnul]
  · simp [hnul]

/-- The argument vector is the name and the arguments, unchanged, and needs them to be free
of NULs. -/
theorem buildArgv_eq_ok_iff {name : String} {trailing : List String} {argv : List Bytes} :
    buildArgv name trailing = .ok argv ↔
      0 ∉ asBytes name ∧ (∀ a ∈ trailing, 0 ∉ asBytes a) ∧
        asBytes name :: trailing.map asBytes = argv := by
  have hrest : ∀ rest : List Bytes, ((trailing.map asBytes).mapM fun a =>
      libraryContext (cString a) "trailing arg contains a NUL byte") = .ok rest ↔
      (∀ a ∈ trailing.map asBytes, 0 ∉ a) ∧ trailing.map asBytes = rest := by
    intro rest
    apply mapM_eq_ok_iff_of_verbatim
    intro a _ b
    rw [libraryContext_eq_ok_iff, cString_eq_ok_iff]
  have hmap : (∀ a ∈ trailing.map asBytes, 0 ∉ a) ↔ ∀ a ∈ trailing, 0 ∉ asBytes a :=
    List.forall_mem_map
  simp only [buildArgv, bind_eq_ok_iff, libraryContext_eq_ok_iff, cString_eq_ok_iff, hrest, hmap,
    pure, Except.pure, Except.ok.injEq]
  constructor
  · intro h
    rcases h with ⟨argv0, ⟨hname, rfl⟩, rest, ⟨hargs, rfl⟩, hargv⟩
    exact ⟨hname, hargs, hargv⟩
  · intro h
    rcases h with ⟨hname, hargs, hargv⟩
    exact ⟨_, ⟨hname, rfl⟩, _, ⟨hargs, rfl⟩, hargv⟩

/-- The environment is passed on byte for byte, less what is no variable. -/
theorem Environment.vector_eq (env : Environment) :
    env.vector = env.entries.filter fun entry => Stub.IsEntry entry := by
  unfold Environment.vector
  induction env.entries with
  | nil => rfl
  | cons entry entries ih =>
      by_cases hentry : Stub.IsEntry entry
      · rcases Stub.parseEntry_of_isEntry hentry with ⟨key, value, hparse, hjoin⟩
        rw [List.filterMap_cons_some hparse, List.map_cons, ih, hjoin,
          List.filter_cons_of_pos (by simpa using hentry)]
      · rw [List.filterMap_cons_none (Stub.parseEntry_of_not_isEntry hentry), ih,
          List.filter_cons_of_neg (by simpa using hentry)]

/-- The kernel starts a program when it is asked for it: at once, or when it is asked again
under a path. -/
def LinuxKernel.Starts (kernel : LinuxKernel) (started : Started) : Prop :=
  match started.route with
  | .fexecve => kernel.fexecve started.fd started.content started.argv started.envp = none
  | .procFd =>
      kernel.fexecve started.fd started.content started.argv started.envp ≠ none ∧
      kernel.execve (procPath started.fd) started.content started.argv started.envp = none

/-- A program is started exactly when every step succeeds and the kernel starts it. -/
theorem execMemfdLinux_eq_ok_iff {name : String} {trailing : List String} {env : Environment}
    {started : Started} :
    execMemfdLinux kernel fuel name bytes trailing env = .ok started ↔
      createExecMemfd kernel = .ok started.fd ∧
      writeMemfd kernel fuel bytes = .ok started.content ∧
      buildArgv name trailing = .ok started.argv ∧ started.envp = env.vector ∧
      kernel.Starts started := by
  unfold execMemfdLinux
  simp only [bind_eq_ok_iff]
  constructor
  · intro h
    rcases h with ⟨fd, hfd, content, hcontent, argv, hargv, h⟩
    split at h
    · rename_i hstarts
      cases h
      exact ⟨hfd, hcontent, hargv, rfl, hstarts⟩
    · rename_i err hfails
      split at h
      · rename_i hstarts
        cases h
        refine ⟨hfd, hcontent, hargv, rfl, ?_, hstarts⟩
        rw [hfails]
        exact Option.some_ne_none err
      · cases h
  · intro h
    rcases started with ⟨route, fd, content, argv, envp⟩
    rcases h with ⟨hfd, hcontent, hargv, rfl, hstarts⟩
    refine ⟨fd, hfd, content, hcontent, argv, hargv, ?_⟩
    cases route with
    | fexecve =>
        have hfexecve : kernel.fexecve fd content argv env.vector = none := hstarts
        rw [hfexecve]
        rfl
    | procFd =>
        have hexecve : kernel.execve (procPath fd) content argv env.vector = none := hstarts.2
        cases hfails : kernel.fexecve fd content argv env.vector with
        | none => exact (hstarts.1 hfails).elim
        | some err =>
            simp only [hexecve]
            rfl

end Steps

/-! ## A small archive -/

/-- An archive with a directory, the file `bin/hello`, and a defect behind it. -/
def helloItems : List (Except String (TarEntry EntryType)) :=
  [.ok ⟨.ok (asBytes "bin/"), .directory, .ok []⟩,
    .ok ⟨.ok (asBytes "./bin/hello"), .regular, .ok (asBytes "hello")⟩, .error "unexpected EOF"]

/-- A library that reads it from any file. -/
def helloLibrary : ArchiveLibrary EntryType :=
  { smallLibrary with newDecoder := fun _ => .ok (.ok helloItems) }

/-- Where the file is. -/
def helloArchive : Path := asBytes "hello.tar.zst"

/-- A disk with nothing else. -/
def helloDisk : Disk Path := fun path =>
  if path = helloArchive then some (.file [] 0o644) else none

/-- The archive offers what `bin/hello` holds. -/
theorem hello_offers (target : Target) :
    Offers (hostFor target) helloLibrary helloArchive "bin/hello" helloDisk (asBytes "hello") where
  named := by decide
  stands := ⟨.file [] 0o644, rfl, rfl⟩
  reads := by
    refine ⟨helloArchive, helloItems, rfl, rfl, [.ok ⟨.ok (asBytes "bin/"), .directory, .ok []⟩],
      .ok ⟨.ok (asBytes "./bin/hello"), .regular, .ok (asBytes "hello")⟩, _, rfl, ?_, ?_⟩
    · intro other hother
      rw [List.mem_singleton] at hother
      exact ⟨_, asBytes "bin/", [], hother, rfl, by decide, rfl⟩
    · exact ⟨_, asBytes "./bin/hello", rfl, rfl, by decide, rfl, rfl⟩

/-- A kernel without `fexecve` that takes one byte of every write. -/
def procKernel : LinuxKernel where
  toKernel := Stub.splitWrites
  fexecve _ _ _ _ := some 38
  execve _ _ _ _ := none
  osError _ := "Function not implemented (os error 38)"

/-- An environment with a variable that is not UTF-8, and an entry that is no variable. -/
def latinEnvironment : Environment where
  entries := [[0x41, 0x3D, 0xFF], asBytes "A"]
  nulFree := by decide

/-! ## A whole run -/

section Runs

variable {κ τ : Type} {host : Host κ} {lib : ArchiveLibrary τ} {kernel : LinuxKernel}
  {archive : Path} {disk : Disk κ}

/-- What a kernel with short writes starts is what the archive offers, and nothing else: the
first entry under the inner path, if that is a regular file and everything before it can be
read.  Its arguments are the trailing ones, and it inherits the environment byte for byte,
be it UTF-8 or not. -/
theorem bin_starts_on_linux_iff (hshort : kernel.write.Short) (innerPath : String)
    (trailing : List String) (env : Environment) (started : Started) :
    (∃ fuel, binLinux host lib kernel fuel archive innerPath trailing env disk = .ok started) ↔
      Offers host lib archive innerPath disk started.content ∧
      Stub.createExecMemfd kernel.toKernel = .ok started.fd ∧
      0 ∉ asBytes (argvZero innerPath) ∧ (∀ a ∈ trailing, 0 ∉ asBytes a) ∧
      started.argv = asBytes (argvZero innerPath) :: trailing.map asBytes ∧
      started.envp = (env.entries.filter fun entry => Stub.IsEntry entry) ∧
      kernel.Starts started := by
  unfold binLinux
  simp only [bind_eq_ok_iff, run_eq_ok_iff_offers, execMemfdLinux_eq_ok_iff,
    createExecMemfd_eq_ok_iff, buildArgv_eq_ok_iff, Environment.vector_eq]
  constructor
  · intro h
    rcases h with ⟨fuel, ⟨name, bytes, args⟩, ⟨hoffers, rfl, rfl⟩, hfd, hcontent,
      ⟨hname, hargs, hargv⟩, henvp, hstarts⟩
    rw [writeMemfd_eq_ok hshort hcontent]
    exact ⟨hoffers, hfd, hname, hargs, hargv.symm, henvp, hstarts⟩
  · intro h
    rcases h with ⟨hoffers, hfd, hname, hargs, hargv, henvp, hstarts⟩
    refine ⟨started.content.length, ⟨argvZero innerPath, started.content, trailing⟩,
      ⟨hoffers, rfl, rfl⟩, hfd, ?_, ⟨hname, hargs, hargv.symm⟩, henvp, hstarts⟩
    exact writeMemfd_of_le hshort (Nat.le_refl _)

/-- `bin/hello` is started, although the archive is defective behind it. -/
theorem bin_starts_on_linux_hello : ∃ fuel,
    binLinux (hostFor .linux) helloLibrary procKernel fuel helloArchive "bin/hello" ["-v"]
      latinEnvironment helloDisk =
        .ok ⟨.procFd, 3, asBytes "hello", [asBytes "hello", asBytes "-v"], [[0x41, 0x3D, 0xFF]]⟩ :=
  (bin_starts_on_linux_iff Stub.splitWrites_short "bin/hello" ["-v"] latinEnvironment _).mpr
    ⟨hello_offers .linux, rfl, by decide, by decide, rfl, by decide, by decide, rfl⟩

end Runs

end Bin
end Upxz
