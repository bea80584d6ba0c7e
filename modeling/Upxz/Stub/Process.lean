import Upxz.Stub.Run

/-!
# Stub - How a run ends

`main` of `stub/src/main.rs` around the steps of `run`: it reads its own image, goes through
them up to `fexecve`, and says what is wrong when it gets an error.  Text that is not UTF-8
and a trailer that overflows make it panic instead.  Its writes to the memfd may be short or
fail, and a write that takes no byte is made again.

Main results:

- Theorem `runToFexecve_cases`: the steps up to `fexecve` panic exactly where a trailer
  overflows or a string that would be forwarded is not UTF-8.
- Theorem `main_outcome`: every run starts the original, panics or exits with 127, and the
  first two exactly under their own conditions.
-/

namespace Upxz
namespace Stub

open Machine Format

/-! ## The program -/

/-- The system around a stub: the image it finds under `/proc/self/exe`, which it may not be
able to open or to read, and `fexecve`, which comes back only with an error. -/
structure System extends Kernel where
  openSelf : Except String (Except String Bytes)
  fexecve : FexecveCall → Option Errno

/-- Step 1: read our own image. -/
def readSelf (system : System) : Exec String Bytes :=
  match system.openSelf with
  | .error e => .error (.err s!"cannot open /proc/self/exe: {e}")
  | .ok (.error e) => .error (.err s!"cannot read self image: {e}")
  | .ok (.ok image) => .ok image

/-- `run`: the call that replaced the process, or what kept it from being made. -/
def run (mode : Overflow) (backend : Backend) (system : System) (fuel : Nat)
    (args env : List Bytes) : Exec String FexecveCall := do
  let image ← readSelf system
  let call ← runToFexecve mode backend system.toKernel fuel image args env
  match system.fexecve call with
  | none => return call
  | some errno => .error (.err s!"fexecve failed (errno {errno})")

/-- How a run ends: another program runs in the process, it exits with a line on stderr, or it
panics.  A run may also use up the turns of its write loop. -/
inductive Ending where
  | started (call : FexecveCall)
  | exited (code : Nat) (line : String)
  | panicked (why : Panic)
  | running
deriving DecidableEq, Repr

/-- `main`. -/
def main (mode : Overflow) (backend : Backend) (system : System) (fuel : Nat)
    (args env : List Bytes) : Ending :=
  match run mode backend system fuel args env with
  | .ok call => .started call
  | .error (.err e) => .exited 127 s!"upxz-stub: {e}"
  | .error (.panic why) => .panicked why
  | .error .timeout => .running

/-! ## Strings that are not UTF-8 -/

theorem intoString_ok_or_panic (s : Bytes) :
    (∃ text, intoString s = .ok text) ∨ intoString s = .error (.panic .notUnicode) := by
  unfold intoString
  cases fromUtf8 s with
  | ok text => exact Or.inl ⟨text, rfl⟩
  | error e => exact Or.inr rfl

/-- A string without a NUL converts, or makes the conversion panic. -/
theorem forwardArg_ok_or_panic {a : Bytes} (hnul : 0 ∉ a) :
    (∃ b, forwardArg a = .ok b) ∨ forwardArg a = .error (.panic .notUnicode) := by
  rcases intoString_ok_or_panic a with ⟨text, htext⟩ | hpanic
  · have hbytes := intoString_eq_ok_iff.mp htext
    exact Or.inl ⟨a, (forwardArg_eq_ok_iff a a).mpr ⟨⟨⟨text, hbytes⟩, hnul⟩, rfl⟩⟩
  · right
    rw [forwardArg, hpanic]
    rfl

theorem forwardVar_ok_or_panic {key value entry : Bytes}
    (hentry : key ++ equalsSign :: value = entry) (hnul : 0 ∉ entry) :
    (∃ out, forwardVar (key, value) = .ok out) ∨
      forwardVar (key, value) = .error (.panic .notUnicode) := by
  rcases intoString_ok_or_panic key with ⟨k, hkey⟩ | hpanic
  · rcases intoString_ok_or_panic value with ⟨v, hvalue⟩ | hpanic
    · have hutf8 : IsUtf8 entry := by
        rw [← hentry]
        exact (isUtf8_append_ascii (by decide)).mpr
          ⟨⟨k, intoString_eq_ok_iff.mp hkey⟩, ⟨v, intoString_eq_ok_iff.mp hvalue⟩⟩
      exact Or.inl ⟨entry, (forwardVar_eq_ok_iff hentry).mpr ⟨⟨hutf8, hnul⟩, rfl⟩⟩
    · right
      simp only [forwardVar, hkey, hpanic, ok_bind, error_bind]
  · right
    simp only [forwardVar, hpanic, error_bind]

theorem forwardEntry_ok_or_panic {entry : Bytes} (hnul : 0 ∉ entry) :
    (∃ out, forwardEntry entry = .ok out) ∨
      forwardEntry entry = .error (.panic .notUnicode) := by
  by_cases hentry : IsEntry entry
  · rcases parseEntry_of_isEntry hentry with ⟨key, value, hparse, hjoin⟩
    rw [forwardEntry, hparse]
    exact forwardVar_ok_or_panic hjoin hnul
  · rw [forwardEntry, parseEntry_of_not_isEntry hentry]
    exact Or.inl ⟨entry, rfl⟩

/-- With a NUL in the stored name no argument is looked at. -/
theorem buildArgv_of_nul {name : String} (hnul : 0 ∈ asBytes name) (args : List Bytes) :
    buildArgv name args = .error (.err "stored name contains an interior NUL") := by
  rw [buildArgv, cString, ensure_of_not _ (not_not.mpr hnul)]
  rfl

/-- The arguments of a process convert, or make it panic. -/
theorem buildArgv_ok_or_panic {name : String} (hname : 0 ∉ asBytes name) {args : List Bytes}
    (hnul : ∀ a ∈ args, 0 ∉ a) :
    (∃ argv, buildArgv name args = .ok argv) ∨
      buildArgv name args = .error (.panic .notUnicode) := by
  have hcstring : cString (asBytes name) "stored name contains an interior NUL" =
      .ok (asBytes name) := cString_eq_ok_iff.mpr ⟨hname, rfl⟩
  unfold buildArgv
  rw [hcstring, ok_bind]
  rcases mapM_ok_or_error fun a (_ : a ∈ args.take 1) => intoString_ok_or_panic a with
    ⟨texts, htexts⟩ | hpanic
  · rcases mapM_ok_or_error fun a (ha : a ∈ args.drop 1) =>
      forwardArg_ok_or_panic (hnul a (List.mem_of_mem_drop ha)) with ⟨rest, hrest⟩ | hpanic
    · exact Or.inl ⟨asBytes name :: rest, by rw [htexts, ok_bind, hrest]; rfl⟩
    · exact Or.inr (by rw [htexts, ok_bind, hpanic]; rfl)
  · exact Or.inr (by rw [hpanic]; rfl)

/-- As does its environment. -/
theorem buildEnvp_ok_or_panic {env : List Bytes} (hnul : ∀ entry ∈ env, 0 ∉ entry) :
    (∃ envp, buildEnvp env = .ok envp) ∨ buildEnvp env = .error (.panic .notUnicode) := by
  rw [buildEnvp_eq_mapM]
  exact mapM_ok_or_error fun entry hmem =>
    forwardEntry_ok_or_panic (hnul entry (List.mem_of_mem_filter hmem))

/-! ## The steps of a run -/

section Steps

variable {mode : Overflow} {backend : Backend} {kernel : Kernel} {fuel : Nat} {image : Bytes}
  {invocation : Invocation}

/-- The image is a stub around a container that holds the original under this name. -/
def Holds (backend : Backend) (image : Bytes) (name : String) (original : Bytes) : Prop :=
  ∃ (stub : Bytes) (c : Container), stubImage stub c.bytes = image ∧ c.name = asBytes name ∧
    decompress backend c.codec c.payload = .ok original

/-- An argument or a variable is not UTF-8. -/
def Invocation.Broken (invocation : Invocation) : Prop :=
  (∃ a ∈ invocation.args, ¬IsUtf8 a) ∨
    ∃ entry ∈ invocation.env, IsEntry entry ∧ ¬IsUtf8 entry

/-- What makes a run panic: a trailer that overflows, or a broken invocation once the original
lies in a memfd and the stored name is in order. -/
def Panics (backend : Backend) (kernel : Kernel) (image : Bytes) (invocation : Invocation) :
    Prop :=
  TrailerOverflows image ∨ ((∃ name original, Holds backend image name original ∧
    0 ∉ asBytes name ∧ kernel.write.Takes 0 original.length) ∧
    (∃ fd, createExecMemfd kernel = .ok fd) ∧ invocation.Broken)

/-- The first two steps give the original of an image that holds one. -/
theorem holds_iff (mode : Overflow) (hlen : image.length ≤ isizeMax) {name : String}
    {original : Bytes} :
    Holds backend image name original ↔
      ∃ codecByte payload, parseImage mode image = .ok (codecByte, name, payload) ∧
        decompressPayload backend codecByte payload = .ok original := by
  constructor
  · intro h
    rcases h with ⟨stub, c, himage, hname, hdecompress⟩
    exact ⟨c.codec.id, c.payload,
      (parseImage_eq_ok_iff hlen).mpr ⟨stub, c, himage, rfl, hname, rfl⟩,
      decompressPayload_eq_ok_iff.mpr hdecompress⟩
  · intro h
    rcases h with ⟨codecByte, payload, hparse, hdecompress⟩
    rcases (parseImage_eq_ok_iff hlen).mp hparse with ⟨stub, c, himage, rfl, hname, rfl⟩
    exact ⟨stub, c, himage, hname, decompressPayload_eq_ok_iff.mp hdecompress⟩

/-- An image holds one original under one name. -/
theorem Holds.unique (hlen : image.length ≤ isizeMax) {name name' : String}
    {original original' : Bytes} (h : Holds backend image name original)
    (h' : Holds backend image name' original') : name' = name ∧ original' = original := by
  rcases (holds_iff .checked hlen).mp h with ⟨codecByte, payload, hparse, hdecompress⟩
  rcases (holds_iff .checked hlen).mp h' with ⟨codecByte', payload', hparse', hdecompress'⟩
  rw [hparse] at hparse'
  cases hparse'
  rw [hdecompress] at hdecompress'
  cases hdecompress'
  exact ⟨rfl, rfl⟩

/-- With the original restored and a memfd made, it is written and the strings are built. -/
theorem runToFexecve_of_restored {codecByte : UInt8} {name : String} {payload original : Bytes}
    {fd : Nat} (hparse : parseImage mode image = .ok (codecByte, name, payload))
    (hdecompress : decompressPayload backend codecByte payload = .ok original)
    (hfd : createExecMemfd kernel = .ok fd) (fuel : Nat) (args env : List Bytes) :
    runToFexecve mode backend kernel fuel image args env = (do
      let content ← writeMemfd kernel fuel original
      let argv ← buildArgv name args
      let envp ← buildEnvp env
      return ⟨fd, content, argv, envp⟩) := by
  simp only [runToFexecve, hparse, hdecompress, hfd, ok_bind]

/-- Where both lists of strings are built, the invocation is not broken. -/
theorem Invocation.not_broken {name : String} {argv envp : List Bytes}
    (hargv : buildArgv name invocation.args = .ok argv)
    (henvp : buildEnvp invocation.env = .ok envp) : ¬invocation.Broken := by
  intro hbroken
  rcases hbroken with ⟨a, ha, hutf8⟩ | ⟨entry, hmem, hentry, hutf8⟩
  · exact hutf8 ((buildArgv_eq_ok_iff.mp hargv).2.1 a ha)
  · have hfiltered : entry ∈ invocation.env.filter fun entry => IsEntry entry :=
      List.mem_filter.mpr ⟨hmem, decide_eq_true hentry⟩
    exact hutf8 ((buildEnvp_eq_ok_iff.mp henvp).1 entry hfiltered).1

/-- The arguments of an invocation that is not broken follow the stored name. -/
theorem Invocation.buildArgv_ok {name : String} (hname : 0 ∉ asBytes name)
    (h : ¬invocation.Broken) :
    buildArgv name invocation.args = .ok (asBytes name :: invocation.args.drop 1) := by
  have hutf8 : ∀ a ∈ invocation.args, IsUtf8 a := by
    intro a hmem
    by_contra hnot
    exact h (Or.inl ⟨a, hmem, hnot⟩)
  exact buildArgv_eq_ok_iff.mpr ⟨hname, hutf8,
    fun a hmem => invocation.args_nulFree a (List.mem_of_mem_drop hmem), rfl⟩

/-- Its variables are passed on as they are. -/
theorem Invocation.buildEnvp_ok (h : ¬invocation.Broken) :
    buildEnvp invocation.env = .ok (invocation.env.filter fun entry => IsEntry entry) := by
  have hverbatim : ∀ entry ∈ invocation.env.filter fun entry => IsEntry entry,
      IsUtf8 entry ∧ 0 ∉ entry := by
    intro entry hmem
    rcases List.mem_filter.mp hmem with ⟨hin, hentry⟩
    refine ⟨?_, invocation.env_nulFree entry hin⟩
    by_contra hnot
    exact h (Or.inr ⟨entry, hin, of_decide_eq_true hentry, hnot⟩)
  exact buildEnvp_eq_ok_iff.mpr ⟨hverbatim, rfl⟩

/-- Where one of the two is not built, the invocation is broken. -/
theorem Invocation.broken_of_error {name : String} (hname : 0 ∉ asBytes name)
    {fault : Fault String} (h : buildArgv name invocation.args = .error fault ∨
      buildEnvp invocation.env = .error fault) : invocation.Broken := by
  by_contra hbroken
  rcases h with h | h
  · rw [Invocation.buildArgv_ok hname hbroken] at h
    cases h
  · rw [Invocation.buildEnvp_ok hbroken] at h
    cases h

/-- The steps reach `fexecve` exactly with an original, a stored name and an invocation that
are in order and writes that take the original. -/
theorem exists_runToFexecve_iff (hlen : image.length ≤ isizeMax) {call : FexecveCall} :
    (∃ fuel, runToFexecve mode backend kernel fuel image invocation.args invocation.env =
        .ok call) ↔
      ∃ name, Holds backend image name call.content ∧ 0 ∉ asBytes name ∧
        createExecMemfd kernel = .ok call.fd ∧ kernel.write.Takes 0 call.content.length ∧
        ¬invocation.Broken ∧ call.argv = asBytes name :: invocation.args.drop 1 ∧
        call.envp = invocation.env.filter fun entry => IsEntry entry := by
  simp only [runToFexecve_eq_ok_iff]
  constructor
  · intro h
    rcases h with ⟨fuel, codecByte, name, payload, original, hparse, hdecompress, hfd, hwrite,
      hargv, henvp⟩
    have hholds : Holds backend image name original :=
      (holds_iff mode hlen).mpr ⟨codecByte, payload, hparse, hdecompress⟩
    have hwritten := writeMemfd_cases kernel fuel original
    rw [hwrite] at hwritten
    rcases hwritten with ⟨hcontent, htakes⟩ | ⟨⟨message, hfailed⟩, -⟩ | htimeout
    · cases hcontent
      rcases buildArgv_eq_ok_iff.mp hargv with ⟨hname, -, -, hargs⟩
      exact ⟨name, hholds, hname, hfd, htakes, Invocation.not_broken hargv henvp, hargs.symm,
        (buildEnvp_eq_ok_iff.mp henvp).2.symm⟩
    · cases hfailed
    · cases htimeout
  · intro h
    rcases h with ⟨name, hholds, hname, hfd, htakes, hbroken, hargs, henv⟩
    rcases (holds_iff mode hlen).mp hholds with ⟨codecByte, payload, hparse, hdecompress⟩
    rcases exists_writeMemfd_ok htakes with ⟨fuel, hwrite⟩
    refine ⟨fuel, codecByte, name, payload, call.content, hparse, hdecompress, hfd, hwrite,
      ?_, ?_⟩
    · rw [hargs]
      exact Invocation.buildArgv_ok hname hbroken
    · rw [henv]
      exact Invocation.buildEnvp_ok hbroken

/-- Only a broken invocation makes a run panic on an image that holds an original. -/
theorem Holds.panics_iff (hlen : image.length ≤ isizeMax) (hover : ¬TrailerOverflows image)
    {name : String} {original : Bytes} (h : Holds backend image name original) :
    Panics backend kernel image invocation ↔
      (0 ∉ asBytes name ∧ kernel.write.Takes 0 original.length) ∧
        (∃ fd, createExecMemfd kernel = .ok fd) ∧ invocation.Broken := by
  constructor
  · rintro (hoverflows | ⟨⟨name', original', h', hname, htakes⟩, hrest⟩)
    · exact (hover hoverflows).elim
    · rcases h.unique hlen h' with ⟨rfl, rfl⟩
      exact ⟨⟨hname, htakes⟩, hrest⟩
  · intro hbroken
    exact Or.inr ⟨⟨name, original, h, hbroken.1⟩, hbroken.2⟩

/-- Without an original the steps report an error. -/
theorem runToFexecve_clean_of_not_holds (hlen : image.length ≤ isizeMax)
    (hover : ¬TrailerOverflows image) (h : ¬∃ name original, Holds backend image name original)
    (mode : Overflow) (fuel : Nat) (args env : List Bytes) :
    Clean (runToFexecve mode backend kernel fuel image args env) := by
  have hparses : Clean (parseImage mode image) :=
    (locateRegion_clean mode hover).bind fun upxz _ => parseRegion_clean upxz
  rcases hparses with ⟨⟨codecByte, name, payload⟩, hparse⟩ | ⟨e, hparse⟩
  · rcases decompressPayload_clean backend codecByte payload with
      ⟨original, hdecompress⟩ | ⟨e, hdecompress⟩
    · exact (h ⟨name, original,
        (holds_iff mode hlen).mpr ⟨codecByte, payload, hparse, hdecompress⟩⟩).elim
    · simp only [runToFexecve, hparse, hdecompress, ok_bind, error_bind]
      exact clean_err _
  · simp only [runToFexecve, hparse, error_bind]
    exact clean_err _

/-- With the original written, the strings are built, unless the invocation is broken. -/
theorem buildStrings_cases (name : String) (fd : Nat) (content : Bytes)
    (invocation : Invocation) :
    Clean (do
        let argv ← buildArgv name invocation.args
        let envp ← buildEnvp invocation.env
        return (⟨fd, content, argv, envp⟩ : FexecveCall)) ∧
        ¬(0 ∉ asBytes name ∧ invocation.Broken) ∨
      (do
        let argv ← buildArgv name invocation.args
        let envp ← buildEnvp invocation.env
        return (⟨fd, content, argv, envp⟩ : FexecveCall)) = .error (.panic .notUnicode) ∧
        0 ∉ asBytes name ∧ invocation.Broken := by
  by_cases hnul : 0 ∈ asBytes name
  · refine Or.inl ⟨?_, fun h => h.1 hnul⟩
    rw [buildArgv_of_nul hnul]
    exact clean_err _
  · rcases buildArgv_ok_or_panic hnul invocation.args_nulFree with ⟨argv, hargv⟩ | hpanic
    · rcases buildEnvp_ok_or_panic invocation.env_nulFree with ⟨envp, henvp⟩ | hpanic
      · refine Or.inl ⟨?_, fun h => Invocation.not_broken hargv henvp h.2⟩
        rw [hargv, henvp]
        exact clean_ok _
      · refine Or.inr ⟨?_, hnul, Invocation.broken_of_error hnul (Or.inr hpanic)⟩
        rw [hargv, hpanic]
        rfl
    · refine Or.inr ⟨?_, hnul, Invocation.broken_of_error hnul (Or.inl hpanic)⟩
      rw [hpanic]
      rfl

/-- The steps return or report an error, unless something makes them panic, and then they
do; or they are still writing the original to the memfd. -/
theorem runToFexecve_cases (hlen : image.length ≤ isizeMax) (mode : Overflow) (fuel : Nat)
    (invocation : Invocation) :
    Clean (runToFexecve mode backend kernel fuel image invocation.args invocation.env) ∧
        ¬Panics backend kernel image invocation ∨
      (∃ why, runToFexecve mode backend kernel fuel image invocation.args invocation.env =
          .error (.panic why)) ∧
        Panics backend kernel image invocation ∨
      runToFexecve mode backend kernel fuel image invocation.args invocation.env =
          .error .timeout ∧
        ∃ name original, Holds backend image name original ∧
          writeMemfd kernel fuel original = .error .timeout := by
  by_cases hover : TrailerOverflows image
  · refine Or.inr (Or.inl ⟨⟨trailerPanic mode, ?_⟩, Or.inl hover⟩)
    rw [runToFexecve, parseImage, locateRegion_of_overflows mode hlen hover]
    rfl
  by_cases hholds : ∃ name original, Holds backend image name original
  · rcases hholds with ⟨name, original, hholds⟩
    rcases (holds_iff mode hlen).mp hholds with ⟨codecByte, payload, hparse, hdecompress⟩
    rw [hholds.panics_iff hlen hover]
    cases hfd : createExecMemfd kernel with
    | error errno =>
        left
        constructor
        · simp only [runToFexecve, hparse, hdecompress, hfd, ok_bind]
          exact clean_err _
        · rintro ⟨-, ⟨fd, hok⟩, -⟩
          cases hok
    | ok fd =>
        rw [runToFexecve_of_restored hparse hdecompress hfd]
        rcases writeMemfd_cases kernel fuel original with
          ⟨hwritten, htakes⟩ | ⟨⟨message, hfailed⟩, hnot⟩ | htimeout
        · rw [hwritten, ok_bind]
          rcases buildStrings_cases name fd original invocation with
            ⟨hclean, hnot⟩ | ⟨hpanic, hname, hbroken⟩
          · exact Or.inl ⟨hclean, fun h => hnot ⟨h.1.1, h.2.2⟩⟩
          · exact Or.inr (Or.inl ⟨⟨_, hpanic⟩, ⟨hname, htakes⟩, ⟨fd, rfl⟩, hbroken⟩)
        · refine Or.inl ⟨?_, fun h => hnot h.1.2⟩
          rw [hfailed]
          exact clean_err _
        · refine Or.inr (Or.inr ⟨?_, name, original, hholds, htimeout⟩)
          rw [htimeout]
          rfl
  · refine Or.inl ⟨runToFexecve_clean_of_not_holds hlen hover hholds .., ?_⟩
    rintro (hoverflows | ⟨⟨name, original, h, -⟩, -⟩)
    · exact hover hoverflows
    · exact hholds ⟨name, original, h⟩

/-- More turns change nothing for steps that have come to an end. -/
theorem runToFexecve_mono {fuel' : Nat} (hle : fuel ≤ fuel') (args env : List Bytes) :
    runToFexecve mode backend kernel fuel image args env = .error .timeout ∨
      runToFexecve mode backend kernel fuel' image args env =
        runToFexecve mode backend kernel fuel image args env := by
  cases hparse : parseImage mode image with
  | error fault => exact Or.inr (by simp only [runToFexecve, hparse, error_bind])
  | ok found =>
      rcases found with ⟨codecByte, name, payload⟩
      cases hdecompress : decompressPayload backend codecByte payload with
      | error fault =>
          exact Or.inr (by simp only [runToFexecve, hparse, hdecompress, ok_bind, error_bind])
      | ok original =>
          cases hfd : createExecMemfd kernel with
          | error errno =>
              exact Or.inr (by simp only [runToFexecve, hparse, hdecompress, hfd, ok_bind])
          | ok fd =>
              rw [runToFexecve_of_restored hparse hdecompress hfd,
                runToFexecve_of_restored hparse hdecompress hfd]
              rcases writeMemfd_mono hle kernel original with htimeout | hsame
              · exact Or.inl (by rw [htimeout]; rfl)
              · exact Or.inr (by rw [hsame])

end Steps

/-! ## The whole run -/

section Outcome

variable {mode : Overflow} {backend : Backend} {system : System} {fuel : Nat} {image : Bytes}
  {args env : List Bytes}

theorem main_eq_started_iff {call : FexecveCall} :
    main mode backend system fuel args env = .started call ↔
      run mode backend system fuel args env = .ok call := by
  unfold main
  cases run mode backend system fuel args env with
  | ok call' => simp
  | error fault => cases fault <;> simp

theorem main_eq_panicked_iff {why : Panic} :
    main mode backend system fuel args env = .panicked why ↔
      run mode backend system fuel args env = .error (.panic why) := by
  unfold main
  cases run mode backend system fuel args env with
  | ok call' => simp
  | error fault => cases fault <;> simp

/-- A run whose image cannot be read reports an error. -/
theorem run_of_unreadable (h : ¬∃ image, system.openSelf = .ok (.ok image)) :
    ∃ message, run mode backend system fuel args env = .error (.err message) := by
  cases hself : system.openSelf with
  | error e => exact ⟨_, by rw [run, readSelf, hself]; rfl⟩
  | ok contents =>
      cases contents with
      | error e => exact ⟨_, by rw [run, readSelf, hself]; rfl⟩
      | ok image => exact (h ⟨image, hself⟩).elim

/-- A run that does not report an error has read its image. -/
theorem exists_image {result : Exec String FexecveCall}
    (hrun : run mode backend system fuel args env = result)
    (h : ∀ message, result ≠ .error (.err message)) :
    ∃ image, system.openSelf = .ok (.ok image) := by
  by_contra hself
  rcases run_of_unreadable hself with ⟨message, herr⟩
  exact h message (hrun.symm.trans herr)

/-- A run whose image can be read goes through the steps up to `fexecve`. -/
theorem run_of_image (h : system.openSelf = .ok (.ok image)) :
    run mode backend system fuel args env = (do
      let call ← runToFexecve mode backend system.toKernel fuel image args env
      match system.fexecve call with
      | none => return call
      | some errno => .error (.err s!"fexecve failed (errno {errno})")) := by
  rw [run, readSelf, h]
  rfl

/-- It starts the program that `fexecve` takes. -/
theorem run_eq_ok_iff (h : system.openSelf = .ok (.ok image)) {call : FexecveCall} :
    run mode backend system fuel args env = .ok call ↔
      runToFexecve mode backend system.toKernel fuel image args env = .ok call ∧
        system.fexecve call = none := by
  rw [run_of_image h, bind_eq_ok_iff]
  constructor
  · intro hrun
    rcases hrun with ⟨call', hsteps, hexec⟩
    cases hcall : system.fexecve call' with
    | none =>
        rw [hcall] at hexec
        cases hexec
        exact ⟨hsteps, hcall⟩
    | some errno =>
        rw [hcall] at hexec
        cases hexec
  · intro hrun
    rcases hrun with ⟨hsteps, hcall⟩
    exact ⟨call, hsteps, by rw [hcall]; rfl⟩

/-- It panics where its steps do, and otherwise returns or reports an error, or is still
writing the original. -/
theorem run_cases (himage : system.openSelf = .ok (.ok image)) (hlen : image.length ≤ isizeMax)
    (mode : Overflow) (fuel : Nat) (invocation : Invocation) :
    Clean (run mode backend system fuel invocation.args invocation.env) ∧
        ¬Panics backend system.toKernel image invocation ∨
      (∃ why, run mode backend system fuel invocation.args invocation.env =
          .error (.panic why)) ∧
        Panics backend system.toKernel image invocation ∨
      run mode backend system fuel invocation.args invocation.env = .error .timeout ∧
        ∃ name original, Holds backend image name original ∧
          writeMemfd system.toKernel fuel original = .error .timeout := by
  rw [run_of_image himage]
  rcases runToFexecve_cases hlen mode fuel invocation with
    ⟨hclean, hnot⟩ | ⟨⟨why, hpanic⟩, hpanics⟩ | ⟨htimeout, hwriting⟩
  · refine Or.inl ⟨hclean.bind fun call _ => ?_, hnot⟩
    cases system.fexecve call with
    | none => exact clean_ok call
    | some errno => exact clean_err _
  · refine Or.inr (Or.inl ⟨⟨why, ?_⟩, hpanics⟩)
    rw [hpanic]
    rfl
  · refine Or.inr (Or.inr ⟨?_, hwriting⟩)
    rw [htimeout]
    rfl

/-- It starts a program exactly when its image holds an original and everything on the way to
`fexecve` is in order. -/
theorem exists_run_iff (himage : system.openSelf = .ok (.ok image))
    (hlen : image.length ≤ isizeMax) {invocation : Invocation} {call : FexecveCall} :
    (∃ fuel, run mode backend system fuel invocation.args invocation.env = .ok call) ↔
      ∃ name, Holds backend image name call.content ∧ 0 ∉ asBytes name ∧
        createExecMemfd system.toKernel = .ok call.fd ∧
        system.write.Takes 0 call.content.length ∧ ¬invocation.Broken ∧
        call.argv = asBytes name :: invocation.args.drop 1 ∧
        call.envp = (invocation.env.filter fun entry => IsEntry entry) ∧
        system.fexecve call = none := by
  simp only [run_eq_ok_iff himage, exists_and_right, exists_runToFexecve_iff hlen]
  constructor
  · rintro ⟨⟨name, hholds, hname, hfd, htakes, hbroken, hargv, henvp⟩, hcall⟩
    exact ⟨name, hholds, hname, hfd, htakes, hbroken, hargv, henvp, hcall⟩
  · rintro ⟨name, hholds, hname, hfd, htakes, hbroken, hargv, henvp, hcall⟩
    exact ⟨⟨name, hholds, hname, hfd, htakes, hbroken, hargv, henvp⟩, hcall⟩

/-- A run without an end so far is writing the original of its image. -/
theorem writing_of_run_timeout (himage : system.openSelf = .ok (.ok image))
    (hlen : image.length ≤ isizeMax) {invocation : Invocation}
    (h : run mode backend system fuel invocation.args invocation.env = .error .timeout) :
    ∃ name original, Holds backend image name original ∧
      writeMemfd system.toKernel fuel original = .error .timeout := by
  rcases run_cases himage hlen mode fuel invocation with
    ⟨⟨call, hok⟩ | ⟨message, herr⟩, -⟩ | ⟨⟨why, hpanic⟩, -⟩ | ⟨-, hwriting⟩
  · rw [h] at hok
    cases hok
  · rw [h] at herr
    cases herr
  · rw [h] at hpanic
    cases hpanic
  · exact hwriting

/-- A run that has to panic does so once it had the turns to write the original. -/
theorem exists_run_panic (himage : system.openSelf = .ok (.ok image))
    (hlen : image.length ≤ isizeMax) {invocation : Invocation}
    (h : Panics backend system.toKernel image invocation) :
    ∃ fuel why, run mode backend system fuel invocation.args invocation.env =
      .error (.panic why) := by
  have hends : ∀ fuel, run mode backend system fuel invocation.args invocation.env ≠
      .error .timeout → ∃ why, run mode backend system fuel invocation.args invocation.env =
        .error (.panic why) := by
    intro fuel hended
    rcases run_cases himage hlen mode fuel invocation with
      ⟨-, hnot⟩ | ⟨hpanic, -⟩ | ⟨htimeout, -⟩
    · exact (hnot h).elim
    · exact hpanic
    · exact (hended htimeout).elim
  rcases h with hover | ⟨⟨name, original, hholds, -, htakes⟩, -, -⟩
  · refine ⟨0, hends 0 ?_⟩
    rw [run_of_image himage, runToFexecve, parseImage,
      locateRegion_of_overflows mode hlen hover]
    exact fun htimeout => by cases htimeout
  · rcases exists_writeMemfd_ok htakes with ⟨fuel, hwritten⟩
    refine ⟨fuel, hends fuel ?_⟩
    intro htimeout
    rcases writing_of_run_timeout himage hlen htimeout with
      ⟨name', original', hholds', hwriting⟩
    rw [(hholds.unique hlen hholds').2, hwritten] at hwriting
    cases hwriting

/-- More turns change nothing for a run that has come to an end. -/
theorem run_mono {fuel' : Nat} (hle : fuel ≤ fuel') :
    run mode backend system fuel args env = .error .timeout ∨
      run mode backend system fuel' args env = run mode backend system fuel args env := by
  rw [run, run]
  cases readSelf system with
  | error fault => exact Or.inr rfl
  | ok image =>
      rw [ok_bind, ok_bind]
      rcases runToFexecve_mono hle args env with htimeout | hsame
      · exact Or.inl (by rw [htimeout]; rfl)
      · exact Or.inr (by rw [hsame])

theorem main_eq_running_iff :
    main mode backend system fuel args env = .running ↔
      run mode backend system fuel args env = .error .timeout := by
  unfold main
  cases run mode backend system fuel args env with
  | ok call => simp
  | error fault => cases fault <;> simp

theorem main_mono {fuel' : Nat} (hle : fuel ≤ fuel') :
    main mode backend system fuel args env = .running ∨
      main mode backend system fuel' args env = main mode backend system fuel args env := by
  rcases run_mono hle with htimeout | hsame
  · exact Or.inl (main_eq_running_iff.mpr htimeout)
  · exact Or.inr (by rw [main, main, hsame])

/-- The run ends so, given the turns that its write loop needs. -/
def EndsWith (mode : Overflow) (backend : Backend) (system : System) (invocation : Invocation)
    (ending : Ending) : Prop :=
  ending ≠ .running ∧
    ∃ fuel, main mode backend system fuel invocation.args invocation.env = ending

/-- A run does not end in two ways. -/
theorem EndsWith.unique {invocation : Invocation} {first second : Ending}
    (h : EndsWith mode backend system invocation first)
    (h' : EndsWith mode backend system invocation second) : second = first := by
  rcases h with ⟨hfirst, fuel, rfl⟩
  rcases h' with ⟨hsecond, fuel', rfl⟩
  rcases Nat.le_total fuel fuel' with hle | hle
  · rcases main_mono hle with hrunning | hsame
    · exact (hfirst hrunning).elim
    · exact hsame
  · rcases main_mono hle with hrunning | hsame
    · exact (hsecond hrunning).elim
    · exact hsame.symm

/-- Where every write that succeeds advances, it does end. -/
theorem exists_endsWith (hadvances : system.write.Advances)
    (hlen : ∀ image, system.openSelf = .ok (.ok image) → image.length ≤ isizeMax)
    (invocation : Invocation) : ∃ ending, EndsWith mode backend system invocation ending := by
  have hends : ∃ fuel, run mode backend system fuel invocation.args invocation.env ≠
      .error .timeout := by
    by_cases hself : ∃ image, system.openSelf = .ok (.ok image)
    · rcases hself with ⟨image, himage⟩
      by_cases hholds : ∃ name original, Holds backend image name original
      · rcases hholds with ⟨name, original, hholds⟩
        refine ⟨original.length, ?_⟩
        intro htimeout
        rcases writing_of_run_timeout himage (hlen image himage) htimeout with
          ⟨name', original', hholds', hwriting⟩
        rw [(hholds.unique (hlen image himage) hholds').2] at hwriting
        exact writeMemfd_ne_timeout hadvances (Nat.le_refl _) hwriting
      · refine ⟨0, ?_⟩
        intro htimeout
        rcases writing_of_run_timeout himage (hlen image himage) htimeout with
          ⟨name, original, h, -⟩
        exact hholds ⟨name, original, h⟩
    · rcases run_of_unreadable hself with ⟨message, hrun⟩
      exact ⟨0, by rw [hrun]; exact fun h => by cases h⟩
  rcases hends with ⟨fuel, hended⟩
  exact ⟨_, fun hrunning => hended (main_eq_running_iff.mp hrunning), fuel, rfl⟩

theorem endsWith_started_iff {invocation : Invocation} {call : FexecveCall} :
    EndsWith mode backend system invocation (.started call) ↔
      ∃ fuel, run mode backend system fuel invocation.args invocation.env = .ok call := by
  simp only [EndsWith, main_eq_started_iff, ne_eq, reduceCtorEq, not_false_eq_true, true_and]

theorem endsWith_panicked_iff {invocation : Invocation} {why : Panic} :
    EndsWith mode backend system invocation (.panicked why) ↔
      ∃ fuel, run mode backend system fuel invocation.args invocation.env =
        .error (.panic why) := by
  simp only [EndsWith, main_eq_panicked_iff, ne_eq, reduceCtorEq, not_false_eq_true, true_and]

/-- An end is another program, a panic or a line on stderr. -/
theorem EndsWith.cases {invocation : Invocation} {ending : Ending}
    (h : EndsWith mode backend system invocation ending) :
    (∃ call, ending = .started call) ∨ (∃ why, ending = .panicked why) ∨
      ∃ message : String, ending = .exited 127 s!"upxz-stub: {message}" := by
  rcases h with ⟨hended, fuel, rfl⟩
  cases hrun : run mode backend system fuel invocation.args invocation.env with
  | ok call => exact Or.inl ⟨call, main_eq_started_iff.mpr hrun⟩
  | error fault =>
      cases fault with
      | err message => exact Or.inr (Or.inr ⟨message, by rw [main, hrun]⟩)
      | panic why => exact Or.inr (Or.inl ⟨why, main_eq_panicked_iff.mpr hrun⟩)
      | timeout => exact (hended (main_eq_running_iff.mpr hrun)).elim

/-- Every run ends in at most one way: it starts another program, panics, or exits with 127
and a line on stderr; it does end where every write that succeeds advances.  It starts a
program exactly when the image holds one under a name without NUL, the memfd is made and the
writes take the original, every string it forwards is UTF-8 and `fexecve` takes the call; the
call has the original as content, the stored name before the arguments and the environment
less its malformed entries.  It panics exactly on a trailer that overflows, and where the
original lies in the memfd and a string is not UTF-8. -/
theorem main_outcome (mode : Overflow) (backend : Backend) (system : System)
    (invocation : Invocation)
    (hlen : ∀ image, system.openSelf = .ok (.ok image) → image.length ≤ isizeMax) :
    (∀ call, EndsWith mode backend system invocation (.started call) ↔
      ∃ image name, system.openSelf = .ok (.ok image) ∧ Holds backend image name call.content ∧
        0 ∉ asBytes name ∧ createExecMemfd system.toKernel = .ok call.fd ∧
        system.write.Takes 0 call.content.length ∧ ¬invocation.Broken ∧
        call.argv = asBytes name :: invocation.args.drop 1 ∧
        call.envp = (invocation.env.filter fun entry => IsEntry entry) ∧
        system.fexecve call = none) ∧
      ((∃ why, EndsWith mode backend system invocation (.panicked why)) ↔
        ∃ image, system.openSelf = .ok (.ok image) ∧
          Panics backend system.toKernel image invocation) ∧
      (∀ ending, EndsWith mode backend system invocation ending →
        (∃ call, ending = .started call) ∨ (∃ why, ending = .panicked why) ∨
          ∃ message : String, ending = .exited 127 s!"upxz-stub: {message}") ∧
      (∀ first second, EndsWith mode backend system invocation first →
        EndsWith mode backend system invocation second → second = first) ∧
      (system.write.Advances → ∃ ending, EndsWith mode backend system invocation ending) := by
  refine ⟨?_, ?_, fun ending h => h.cases, fun first second h h' => h.unique h',
    fun hadvances => exists_endsWith hadvances hlen invocation⟩
  · intro call
    rw [endsWith_started_iff]
    constructor
    · rintro ⟨fuel, hrun⟩
      rcases exists_image hrun (by simp) with ⟨image, himage⟩
      rcases (exists_run_iff himage (hlen image himage)).mp ⟨fuel, hrun⟩ with ⟨name, hcall⟩
      exact ⟨image, name, himage, hcall⟩
    · rintro ⟨image, name, himage, hcall⟩
      exact (exists_run_iff himage (hlen image himage)).mpr ⟨name, hcall⟩
  · simp only [endsWith_panicked_iff]
    constructor
    · rintro ⟨why, fuel, hrun⟩
      rcases exists_image hrun (by simp) with ⟨image, himage⟩
      rcases run_cases himage (hlen image himage) mode fuel invocation with
        ⟨hclean, -⟩ | ⟨-, hpanics⟩ | ⟨htimeout, -⟩
      · rw [hrun] at hclean
        exact (not_clean_panic why hclean).elim
      · exact ⟨image, himage, hpanics⟩
      · rw [hrun] at htimeout
        cases htimeout
    · rintro ⟨image, himage, hpanics⟩
      rcases exists_run_panic himage (hlen image himage) hpanics with ⟨fuel, why, hrun⟩
      exact ⟨why, fuel, hrun⟩

/-- The packed two-byte file on a system that takes one byte of every write. -/
def hiSystem : System where
  toKernel := splitWrites
  openSelf := .ok (.ok hiImage)
  fexecve _ := none

/-- It starts under an ASCII invocation and panics under a Latin-1 argument. -/
theorem main_outcome_hi :
    EndsWith .checked storedBackend hiSystem asciiInvocation
        (.started ⟨3, asBytes "hi", [asBytes "hi.txt", asBytes "-v"], [asBytes "HOME=/root"]⟩) ∧
      ∃ why, EndsWith .checked storedBackend hiSystem latin1Invocation (.panicked why) := by
  have hparse : parseImage .checked hiImage =
      .ok (codecZstd, "hi.txt", storedFrame (asBytes "hi")) := by
    decide
  have hlen : ∀ image, hiSystem.openSelf = .ok (.ok image) → image.length ≤ isizeMax := by
    rintro image ⟨⟩
    decide
  have hholds : Holds storedBackend hiImage "hi.txt" (asBytes "hi") :=
    (holds_iff .checked (by decide)).mpr ⟨codecZstd, _, hparse, by decide⟩
  have htakes : hiSystem.write.Takes 0 (asBytes "hi").length := splitWrites_short.takes 0 _
  have hwhole : ¬asciiInvocation.Broken := by
    rintro (⟨a, hmem, hnot⟩ | ⟨entry, hmem, -, hnot⟩)
    · exact hnot ((by decide : ∀ a ∈ asciiInvocation.args, IsUtf8 a) a hmem)
    · exact hnot ((by decide : ∀ entry ∈ asciiInvocation.env, IsUtf8 entry) entry hmem)
  have hbroken : latin1Invocation.Broken :=
    Or.inl ⟨[0x63, 0x61, 0x66, 0xE9], by decide, by decide⟩
  have hascii := main_outcome .checked storedBackend hiSystem asciiInvocation hlen
  have hlatin := main_outcome .checked storedBackend hiSystem latin1Invocation hlen
  constructor
  · exact (hascii.1 _).mpr ⟨hiImage, "hi.txt", rfl, hholds, by decide, rfl, htakes, hwhole, rfl,
      by decide, rfl⟩
  · exact hlatin.2.1.mpr ⟨hiImage, rfl, Or.inr ⟨⟨"hi.txt", _, hholds, by decide, htakes⟩,
      ⟨3, rfl⟩, hbroken⟩⟩

end Outcome

end Stub
end Upxz
