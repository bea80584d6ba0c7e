import Upxz.Machine.Decimal
import Upxz.Machine.Parties
import Upxz.Machine.Utf16
import Upxz.Stub.Run
import Upxz.Winstub.TempName

/-!
# Winstub - Running a Windows self-extractor

The Windows stub finds its own image, restores the original from it as the Linux stub
does, writes it to a file of its own under `%TEMP%`, runs that file to its end and removes
it.  The definitions follow `main`, `run`, `exec_via_temp_file` and `current_exe_path` in
`winstub/src/main.rs`; the calls they make of the system are answered by a world that
other processes share.

Main results:

- Theorem `main_keeps`: a stub makes legal calls only and ends as promised.
- Theorem `main_starts_original`: what a stub runs is what its image restores to, with the
  user's arguments.
- Theorem `main_ends`: a stub that ends has said why, or passes on the exit code; a temp
  file is left behind only for three reasons.
- Theorem `main_passes_on`: where no call fails and every argument is a string, it passes on
  the exit code of what it ran.
- Theorem `winstubs_start_own`: stubs that run side by side each run their own original.
-/

namespace Upxz
namespace Winstub

open Machine Format

/-! ## Calls -/

/-- The calls the stub makes of the system and of the standard library. -/
inductive SysCall where
  | moduleFileName (capacity : Nat)
  | read (path : Wide)
  | write (path : WindowsPath) (content : Bytes)
  | args
  | status (path : WindowsPath) (args : List String)
  | removeFile (path : WindowsPath)
  | eprintln (line : String)

/-- What a call returns: for `GetModuleFileNameW` its result and the buffer it filled, for
`status` the exit code of the program that was run. -/
abbrev Answer : SysCall → Type
  | .moduleFileName _ => Nat × Wide
  | .read _ => Except String Bytes
  | .write _ _ => Except String Unit
  | .args => List Wide
  | .status _ _ => Except String (Option Int32)
  | .removeFile _ => Except String Unit
  | .eprintln _ => Unit

/-- A program of the stub. -/
abbrev Running := Calls SysCall Answer

/-- Make one of these calls. -/
def ask (c : SysCall) : Running (Answer c) :=
  Calls.make c

@[simp]
theorem ask_bind {β : Type} (c : SysCall) (f : Answer c → Running β) :
    ask c >>= f = .call c f :=
  rfl

/-- `GetModuleFileNameW`. -/
def getModuleFileName (capacity : Nat) : Running (Nat × Wide) :=
  ask (.moduleFileName capacity)

/-- `fs::read`. -/
def readFile (path : Wide) : Running (Except String Bytes) :=
  ask (.read path)

/-- `fs::write`. -/
def writeFile (path : WindowsPath) (content : Bytes) : Running (Except String Unit) :=
  ask (.write path content)

/-- `args_os`. -/
def argsOs : Running (List Wide) :=
  ask .args

/-- `Command::status`: run a program to its end. -/
def commandStatus (path : WindowsPath) (args : List String) :
    Running (Except String (Option Int32)) :=
  ask (.status path args)

/-- `fs::remove_file`. -/
def removeFile (path : WindowsPath) : Running (Except String Unit) :=
  ask (.removeFile path)

/-- `eprintln!`. -/
def eprintln (line : String) : Running Unit :=
  ask (.eprintln line)

/-- How the process ends. -/
inductive Exit where
  | code (n : Int32)
  | panicked
deriving DecidableEq, Repr

/-- A build of the stub in a process of its own, with the text of its paths. -/
structure Launch where
  overflow : Overflow
  backend : Backend
  proc : Process
  display : WindowsPath → String

/-! ## The program -/

/-- `INITIAL_CAP`. -/
def initialCap : Nat := 1024

/-- The path of our own executable. -/
def currentExePath : Running (Except String Wide) := do
  let (n, buf) ← getModuleFileName initialCap
  if n = 0 then return .error "GetModuleFileNameW returned 0"
  else if n = initialCap then do
    -- The buffer was filled, so the path may be longer.
    let (m, buf) ← getModuleFileName (initialCap * 2)
    if m = 0 ∨ m = initialCap * 2 then
      return .error "GetModuleFileNameW path was truncated even after growth"
    else return .ok (buf.take m)
  else return .ok (buf.take n)

/-- Steps 2 to 5: the stored name, and the original. -/
def restore (launch : Launch) (image : Bytes) : Exec String (String × Bytes) := do
  let (codecByte, name, payload) ← Stub.parseImage launch.overflow image
  let original ← Stub.decompressPayload launch.backend codecByte payload
  return (name, original)

/-- `args().skip(1)` as strings; an argument that is none makes the iterator panic, the one
it skips included. -/
def ourArgs (args : List Wide) : Option (List String) :=
  (args.mapM fromUtf16).map (·.drop 1)

/-- Write the original to a temp file, run that and remove it. -/
def execViaTempFile (launch : Launch) (original : Bytes) (storedName : String) :
    Running (Except String Exit) := do
  let tmpPath := tempPath launch.proc storedName
  match ← writeFile tmpPath original with
  | .error e =>
      return .error s!"cannot write restored binary to {launch.display tmpPath}: {e}"
  | .ok () => do
      match ourArgs (← argsOs) with
      | none => return .ok .panicked
      | some args => do
          let status ← commandStatus tmpPath args
          let _ ← removeFile tmpPath
          match status with
          | .error e =>
              return .error s!"failed to exec restored binary {launch.display tmpPath}: {e}"
          | .ok code => return .ok (.code (code.getD 1))

/-- `run`: an error, or the end of the process. -/
def run (launch : Launch) : Running (Except String Exit) := do
  match ← currentExePath with
  | .error e => return .error e
  | .ok exePath => do
      match ← readFile exePath with
      | .error e => return .error s!"cannot read self image {lossyUtf16 exePath}: {e}"
      | .ok image =>
          match restore launch image with
          | .error (.err e) => return .error e
          | .error _ => return .ok .panicked
          | .ok (name, original) => execViaTempFile launch original name

/-- `main`. -/
def main (launch : Launch) : Running Exit := do
  match ← run launch with
  | .error err => do
      eprintln s!"upxz-winstub: {err}"
      return .code 127
  | .ok exit => return exit

/-! ## The world of a stub -/

/-- What every place holds, if a file. -/
abbrev Files (κ : Type) := κ → Option Bytes

/-- A Windows system around one stub: its packed file, the arguments it was given, which
calls may fail, which files can be run, and what the program it runs and other processes may
do to the files. -/
structure Windows (κ : Type) where
  launch : Launch
  self : Wide
  self_ne : self ≠ []
  placeWide : Wide → κ
  place : WindowsPath → κ
  args : List Wide
  mayFail : Prop
  writeFails : Prop
  removeFails : Prop
  loads : Bytes → Prop
  child : Files κ → Files κ → Prop
  child_refl : ∀ f, child f f
  rely : Files κ → Files κ → Prop
  rely_refl : ∀ f, rely f f
  rely_trans : ∀ {f g h}, rely f g → rely g h → rely f h

section Worlds

variable {κ : Type} (env : Windows κ)

/-- The place of the packed file. -/
def Windows.packed : κ :=
  env.placeWide env.self

/-- The place of the temp file for a stored name. -/
def Windows.temp (storedName : String) : κ :=
  env.place (tempPath env.launch.proc storedName)

/-- What the stub has done: the lines it said, the temp file it began to write, and how what
it ran ended. -/
structure Deeds where
  said : List String
  wrote : Option WindowsPath
  ran : Option (Option Int32)

/-- Before the first call. -/
def Deeds.fresh : Deeds where
  said := []
  wrote := none
  ran := none

/-- Others leave the packed file and the temp file alone. -/
structure Windows.Quiet : Prop where
  packed_kept : ∀ {f g}, env.rely f g → g env.packed = f env.packed
  temp_kept : ∀ {f g} storedName, env.rely f g → g (env.temp storedName) = f (env.temp storedName)

/-- The packed file restores to a name and an original. -/
def RestoresTo (start : Files κ) (storedName : String) (original : Bytes) : Prop :=
  ∃ image, start env.packed = some image ∧ restore env.launch image = .ok (storedName, original)

variable [DecidableEq κ]

/-- The answers a call may get, and what they leave. -/
def Acts (p : Deeds) (f : Files κ) : (c : SysCall) → Answer c → Deeds → Files κ → Prop
  -- A path that does not fit fills the buffer, which then ends in a NUL.
  | .moduleFileName capacity, (n, buf), p', f' => p' = p ∧ f' = f ∧
      (n = 0 ∧ env.mayFail ∨
        env.self.length < capacity ∧ n = env.self.length ∧ buf.take n = env.self ∨
        capacity ≤ env.self.length ∧ n = capacity)
  | .read path, .ok content, p', f' => p' = p ∧ f' = f ∧ f (env.placeWide path) = some content
  | .read path, .error _, p', f' => p' = p ∧ f' = f ∧
      (env.mayFail ∨ f (env.placeWide path) = none)
  | .write path content, .ok (), p', f' => p' = { p with wrote := some path } ∧
      f' = Function.update f (env.place path) (some content)
  | .write path content, .error _, p', f' => p' = { p with wrote := some path } ∧
      env.writeFails ∧ ∃ left, f' = Function.update f (env.place path) left ∧
        (left = f (env.place path) ∨ ∃ part, part <+: content ∧ left = some part)
  | .args, args, p', f' => p' = p ∧ f' = f ∧ args = env.args
  | .status path _, .ok code, p', f' => p' = { p with ran := some code } ∧ env.child f f' ∧
      ∃ content, f (env.place path) = some content ∧ env.loads content
  | .status path _, .error _, p', f' => p' = p ∧ f' = f ∧
      (env.mayFail ∨ ∀ content, f (env.place path) = some content → ¬env.loads content)
  | .removeFile path, .ok (), p', f' => p' = p ∧
      f' = Function.update f (env.place path) none
  | .removeFile path, .error _, p', f' => p' = p ∧ f' = f ∧
      (env.removeFails ∨ f (env.place path) = none)
  | .eprintln line, (), p', f' => p' = { p with said := p.said ++ [line] } ∧ f' = f

/-- The calls a stub should make: it writes, runs and removes only its own temp file, runs
there what the packed file restores to with its own arguments, removes what it wrote, and
says one line. -/
def Legal (start : Files κ) (p : Deeds) (f : Files κ) : SysCall → Prop
  | .write path original => ∃ storedName, path = tempPath env.launch.proc storedName ∧
      (env.Quiet → RestoresTo env start storedName original)
  | .status path args => args.map encodeUtf16 = env.args.drop 1 ∧ ∃ storedName,
      path = tempPath env.launch.proc storedName ∧ (env.Quiet → ∃ original,
        RestoresTo env start storedName original ∧ f (env.place path) = some original)
  | .removeFile path => p.wrote = some path ∧
      ∃ storedName, path = tempPath env.launch.proc storedName
  | .eprintln _ => p.said = []
  | _ => True

/-- The world of a stub. -/
def winstubWorld (start : Files κ) : World SysCall Answer Deeds (Files κ) where
  Legal := Legal env start
  Acts := Acts env
  Rely := env.rely
  rely_refl := env.rely_refl
  rely_trans := env.rely_trans

/-! ## The promise -/

variable (start : Files κ)

omit [DecidableEq κ] in
/-- Why a stub gives up when no call fails: its path is too long, there is no packed file or
none that restores, or the original is no program. -/
def Cause (e : String) : Prop :=
  initialCap * 2 ≤ env.self.length ∨ start env.packed = none ∨
    (∃ image, start env.packed = some image ∧ restore env.launch image = .error (.err e)) ∨
    ∃ storedName original, RestoresTo env start storedName original ∧ ¬env.loads original

omit [DecidableEq κ] in
/-- Why a stub panics: a trailer that overflows, so that the image does not restore, or an
argument that is no string. -/
def PanicCause : Prop :=
  (∃ image, start env.packed = some image ∧ TrailerOverflows image ∧
    ∀ restored, restore env.launch image ≠ .ok restored) ∨ ∃ a ∈ env.args, ¬IsUtf16 a

omit [DecidableEq κ] in
/-- How a stub ends, and what it has said and run by then. -/
inductive Outcome : Exit → Deeds → Prop
  | passedOn (status : Option Int32) (storedName : String)
      (hrestored : env.Quiet → ∃ original, RestoresTo env start storedName original) :
      Outcome (.code (status.getD 1))
        ⟨[], some (tempPath env.launch.proc storedName), some status⟩
  | failed (e : String) (wrote : Option WindowsPath)
      (hcause : env.Quiet → ¬env.mayFail → ¬env.writeFails → Cause env start e) :
      Outcome (.code 127) ⟨["upxz-winstub: " ++ e], wrote, none⟩
  | panicked (wrote : Option WindowsPath) (hcause : env.Quiet → PanicCause env start) :
      Outcome .panicked ⟨[], wrote, none⟩

omit [DecidableEq κ] in
/-- The temp file a stub wrote is gone, unless writing or removing failed or it panicked. -/
def Tidy (exit : Exit) (p : Deeds) (f : Files κ) : Prop :=
  env.Quiet → ∀ storedName, p.wrote = some (tempPath env.launch.proc storedName) →
    f (env.temp storedName) = none ∨ env.writeFails ∨ env.removeFails ∨ exit = .panicked

omit [DecidableEq κ] in
/-- The promise of `main`. -/
def Ends (exit : Exit) (p : Deeds) (f : Files κ) : Prop :=
  Outcome env start exit p ∧ Tidy env exit p f

omit [DecidableEq κ] in
/-- The promise of `run`, which leaves it to `main` to say what is wrong. -/
def RunEnds (result : Except String Exit) (p : Deeds) (f : Files κ) : Prop :=
  match result with
  | .ok exit => Ends env start exit p f
  | .error e => Ends env start (.code 127) { p with said := ["upxz-winstub: " ++ e] } f ∧
      p.said = []

end Worlds

/-! ## The promise is kept -/

section Promises

variable {κ : Type} [DecidableEq κ] {env : Windows κ} {start f : Files κ}

/-- The path found is the packed file's, which must be short enough. -/
theorem currentExePath_keeps {p : Deeds} :
    Keeps (winstubWorld env start)
      (fun result p' f' => p' = p ∧ env.rely f f' ∧
        match result with
        | .ok path => path = env.self ∧ env.self.length < initialCap * 2
        | .error _ => env.mayFail ∨ initialCap * 2 ≤ env.self.length)
      currentExePath p f := by
  have hpos : env.self.length ≠ 0 := fun hzero => env.self_ne (List.eq_nil_of_length_eq_zero hzero)
  have hdouble : initialCap < initialCap * 2 := by decide
  unfold currentExePath getModuleFileName
  rw [ask_bind]
  refine keeps_call.mpr fun u hu => ⟨trivial, ?_⟩
  rintro ⟨n, buf⟩ p₁ f₁ ⟨rfl, rfl, hanswer⟩
  dsimp only
  rcases hanswer with ⟨rfl, hfails⟩ | ⟨hfits, rfl, htake⟩ | ⟨hover, rfl⟩
  · rw [if_pos rfl]
    intro v hv
    exact ⟨rfl, env.rely_trans hu hv, Or.inl hfails⟩
  · rw [if_neg hpos, if_neg (Nat.ne_of_lt hfits)]
    intro v hv
    exact ⟨rfl, env.rely_trans hu hv, htake, hfits.trans hdouble⟩
  · rw [if_neg (by decide), if_pos rfl, ask_bind]
    refine keeps_call.mpr fun u₂ hu₂ => ⟨trivial, ?_⟩
    rintro ⟨m, buf⟩ p₂ f₂ ⟨rfl, rfl, hanswer⟩
    have hrely := env.rely_trans hu hu₂
    dsimp only
    rcases hanswer with ⟨rfl, hfails⟩ | ⟨hfits, rfl, htake⟩ | ⟨hover₂, rfl⟩
    · rw [if_pos (Or.inl rfl)]
      intro v hv
      exact ⟨rfl, env.rely_trans hrely hv, Or.inl hfails⟩
    · rw [if_neg (not_or.mpr ⟨hpos, Nat.ne_of_lt hfits⟩)]
      intro v hv
      exact ⟨rfl, env.rely_trans hrely hv, htake, hfits⟩
    · rw [if_pos (Or.inr rfl)]
      intro v hv
      exact ⟨rfl, env.rely_trans hrely hv, Or.inr hover₂⟩

/-- The arguments are forwarded as they are, but for the first. -/
theorem ourArgs_eq_some {args : List Wide} {strings : List String}
    (h : ourArgs args = some strings) : strings.map encodeUtf16 = args.drop 1 := by
  rcases Option.map_eq_some_iff.mp h with ⟨texts, htexts, rfl⟩
  rw [List.map_drop, mapM_fromUtf16_eq_some_iff.mp htexts]

theorem exists_not_isUtf16_of_ourArgs {args : List Wide} (h : ourArgs args = none) :
    ∃ a ∈ args, ¬IsUtf16 a :=
  exists_not_isUtf16_of_mapM (Option.map_eq_none_iff.mp h)

/-- Removing the temp file leaves none there, unless it cannot be removed. -/
theorem removeFile_keeps {p : Deeds} {storedName : String}
    (hwrote : p.wrote = some (tempPath env.launch.proc storedName)) :
    Keeps (winstubWorld env start)
      (fun _ p' f' => p' = p ∧
        (env.Quiet → f' (env.temp storedName) = none ∨ env.removeFails))
      (removeFile (tempPath env.launch.proc storedName)) p f := by
  refine keeps_call.mpr fun u _ => ⟨⟨hwrote, storedName, rfl⟩, ?_⟩
  intro result p₁ f₁ hacts v hv
  cases result with
  | ok _ =>
      rcases hacts with ⟨rfl, rfl⟩
      refine ⟨rfl, fun hquiet => Or.inl ?_⟩
      rw [hquiet.temp_kept storedName hv]
      exact Function.update_self ..
  | error e =>
      rcases hacts with ⟨rfl, rfl, hfails | hgone⟩
      · exact ⟨rfl, fun _ => Or.inr hfails⟩
      · refine ⟨rfl, fun hquiet => Or.inl ?_⟩
        rw [hquiet.temp_kept storedName hv]
        exact hgone

/-- An image whose trailer does not overflow restores or is an error. -/
theorem restore_clean {launch : Launch} {image : Bytes} (h : ¬TrailerOverflows image) :
    Clean (restore launch image) := by
  have hparses : Clean (Stub.parseImage launch.overflow image) :=
    (Stub.locateRegion_clean launch.overflow h).bind fun upxz _ => Stub.parseRegion_clean upxz
  unfold restore
  refine hparses.bind fun found _ => ?_
  exact (Stub.decompressPayload_clean ..).bind fun original _ => clean_ok _

/-- One that does neither has a trailer that overflows. -/
theorem trailerOverflows_of_restore {launch : Launch} {image : Bytes} {fault : Fault String}
    (h : restore launch image = .error fault) (hfault : ∀ e, fault ≠ .err e) :
    TrailerOverflows image := by
  by_contra hover
  rcases restore_clean hover with ⟨restored, hok⟩ | ⟨e, herr⟩
  · rw [h] at hok
    cases hok
  · rw [h] at herr
    cases herr
    exact hfault e rfl

omit [DecidableEq κ] in
/-- A temp file that is gone or cannot be removed is all right. -/
theorem tidy_of_removed {storedName : String} {exit : Exit} {p : Deeds} {g : Files κ}
    (hwrote : p.wrote = some (tempPath env.launch.proc storedName))
    (hremoved : env.Quiet → f (env.temp storedName) = none ∨ env.removeFails)
    (hrely : env.rely f g) : Tidy env exit p g := by
  intro hquiet other hother
  have hsame : env.temp other = env.temp storedName :=
    congrArg env.place (Option.some.inj (hother.symm.trans hwrote))
  rcases hremoved hquiet with hgone | hfails
  · left
    rw [hsame, hquiet.temp_kept storedName hrely]
    exact hgone
  · exact Or.inr (Or.inr (Or.inl hfails))

/-- Running the original through a temp file, once it is restored. -/
theorem execViaTempFile_keeps {storedName : String} {original : Bytes}
    (hrestored : env.Quiet → RestoresTo env start storedName original) :
    Keeps (winstubWorld env start) (RunEnds env start)
      (execViaTempFile env.launch original storedName) .fresh f := by
  unfold execViaTempFile writeFile
  rw [ask_bind]
  refine keeps_call.mpr fun u hu => ⟨⟨storedName, rfl, hrestored⟩, ?_⟩
  intro result p₁ f₁ hacts
  cases result with
  | error e =>
      -- The part that was written stays.
      rcases hacts with ⟨rfl, hfails, -⟩
      intro v hv
      refine ⟨⟨.failed _ _ fun _ _ hwrites => (hwrites hfails).elim, ?_⟩, rfl⟩
      intro _ path _
      exact Or.inr (Or.inl hfails)
  | ok _ =>
      rcases hacts with ⟨rfl, rfl⟩
      dsimp only
      unfold argsOs
      rw [ask_bind]
      refine keeps_call.mpr fun u₂ hu₂ => ⟨trivial, ?_⟩
      rintro args p₂ f₂ ⟨rfl, rfl, rfl⟩
      cases hargs : ourArgs env.args with
      | none =>
          -- Nothing removes the temp file when the arguments make it panic.
          intro v hv
          refine ⟨.panicked _ fun _ => Or.inr (exists_not_isUtf16_of_ourArgs hargs), ?_⟩
          intro _ path _
          exact Or.inr (Or.inr (Or.inr rfl))
      | some strings =>
          dsimp only
          have hstands : ∀ {u₃}, env.rely f₂ u₃ → env.Quiet →
              u₃ (env.temp storedName) = some original := by
            intro u₃ hu₃ hquiet
            rw [hquiet.temp_kept storedName (env.rely_trans hu₂ hu₃)]
            exact Function.update_self ..
          unfold commandStatus
          rw [ask_bind]
          refine keeps_call.mpr fun u₃ hu₃ => ⟨⟨ourArgs_eq_some hargs, storedName, rfl,
            fun hquiet => ⟨original, hrestored hquiet, hstands hu₃ hquiet⟩⟩, ?_⟩
          intro status p₃ f₃ hacts
          cases status with
          | ok code =>
              rcases hacts with ⟨rfl, -, -⟩
              refine Keeps.bind (removeFile_keeps rfl) ?_
              rintro _ p₄ f₄ ⟨rfl, hremoved⟩ v hv
              exact ⟨.passedOn code storedName fun hquiet => ⟨original, hrestored hquiet⟩,
                tidy_of_removed rfl hremoved hv⟩
          | error e =>
              rcases hacts with ⟨rfl, rfl, hcannot⟩
              have hcause : env.Quiet → ¬env.mayFail → ¬env.writeFails → ∀ text,
                  Cause env start text := by
                intro hquiet hcalls _ text
                have hloads := (hcannot.resolve_left hcalls) original (hstands hu₃ hquiet)
                exact Or.inr (Or.inr (Or.inr ⟨storedName, original, hrestored hquiet, hloads⟩))
              refine Keeps.bind (removeFile_keeps rfl) ?_
              rintro _ p₄ f₄ ⟨rfl, hremoved⟩ v hv
              exact ⟨⟨.failed _ _ fun hquiet hcalls hwrites => hcause hquiet hcalls hwrites _,
                tidy_of_removed rfl hremoved hv⟩, rfl⟩

omit [DecidableEq κ] in
/-- The promise allows for what others do. -/
theorem Ends.rely {exit : Exit} {p : Deeds} {g : Files κ} (h : Ends env start exit p f)
    (hrely : env.rely f g) : Ends env start exit p g := by
  refine ⟨h.1, fun hquiet storedName hwrote => ?_⟩
  rw [hquiet.temp_kept storedName hrely]
  exact h.2 hquiet storedName hwrote

/-- `run` leaves it to `main` to say what is wrong. -/
theorem run_keeps :
    Keeps (winstubWorld env start) (RunEnds env start) (run env.launch) .fresh start := by
  have early : ∀ {e : String} {g : Files κ},
      (env.Quiet → ¬env.mayFail → Cause env start e) → RunEnds env start (.error e) .fresh g := by
    intro e g hcause
    refine ⟨⟨.failed e none fun hquiet hcalls _ => hcause hquiet hcalls, ?_⟩, rfl⟩
    intro _ storedName hwrote
    cases hwrote
  unfold run
  refine Keeps.bind currentExePath_keeps ?_
  rintro (e | path) p f ⟨rfl, hrely, hfound⟩
  · intro v hv
    refine early fun _ hcalls => ?_
    exact Or.inl (hfound.resolve_left hcalls)
  · rcases hfound with ⟨rfl, -⟩
    unfold readFile
    dsimp only
    rw [ask_bind]
    refine keeps_call.mpr fun u hu => ⟨trivial, ?_⟩
    have hpacked : env.Quiet → u env.packed = start env.packed := fun hquiet =>
      hquiet.packed_kept (env.rely_trans hrely hu)
    intro result p₁ f₁ hacts
    cases result with
    | error e =>
        rcases hacts with ⟨rfl, rfl, hcannot⟩
        intro v hv
        refine early fun hquiet hcalls => Or.inr (Or.inl ?_)
        rw [← hpacked hquiet]
        exact hcannot.resolve_left hcalls
    | ok image =>
        rcases hacts with ⟨rfl, rfl, himage⟩
        have hstart : env.Quiet → start env.packed = some image := fun hquiet =>
          (hpacked hquiet).symm.trans himage
        dsimp only
        cases hrestore : restore env.launch image with
        | ok restored =>
            rcases restored with ⟨storedName, original⟩
            exact execViaTempFile_keeps fun hquiet => ⟨image, hstart hquiet, hrestore⟩
        | error fault =>
            have hpanic : (∀ e, fault ≠ .err e) → RunEnds env start (.ok .panicked) .fresh f₁ := by
              intro hfault
              refine ⟨.panicked none fun hquiet =>
                Or.inl ⟨image, hstart hquiet, trailerOverflows_of_restore hrestore hfault, ?_⟩, ?_⟩
              · intro restored hok
                rw [hrestore] at hok
                cases hok
              intro _ storedName hwrote
              cases hwrote
            cases fault with
            | err e =>
                intro v hv
                refine early fun hquiet _ => ?_
                exact Or.inr (Or.inr (Or.inl ⟨image, hstart hquiet, hrestore⟩))
            | panic why => exact fun v hv => Ends.rely (hpanic fun e h => by cases h) hv
            | timeout => exact fun v hv => Ends.rely (hpanic fun e h => by cases h) hv

/-- The stub makes legal calls only and ends as promised. -/
theorem main_keeps :
    Keeps (winstubWorld env start) (Ends env start) (main env.launch) .fresh start := by
  unfold main
  refine run_keeps.bind ?_
  intro result p f hends
  cases result with
  | ok exit => exact fun v hv => hends.rely hv
  | error e =>
      rcases hends with ⟨hends, hsaid⟩
      unfold eprintln
      dsimp only
      rw [ask_bind]
      refine keeps_call.mpr fun u hu => ⟨hsaid, ?_⟩
      rintro _ p₁ f₁ ⟨rfl, rfl⟩ v hv
      rw [hsaid]
      exact (hends.rely hu).rely hv

end Promises

/-! ## One stub -/

section Runs

variable {κ : Type} [DecidableEq κ] {env : Windows κ} {start f : Files κ} {p : Deeds}

/-- A run of the stub comes to this point. -/
def Reaches (env : Windows κ) (start : Files κ) (q : Running Exit) (p : Deeds) (f : Files κ) :
    Prop :=
  Steps (winstubWorld env start) (main env.launch) .fresh start q p f

omit [DecidableEq κ] in
/-- A packed file restores to one name and one original. -/
theorem RestoresTo.unique {storedName storedName' : String} {original original' : Bytes}
    (h : RestoresTo env start storedName original)
    (h' : RestoresTo env start storedName' original') :
    storedName = storedName' ∧ original = original' := by
  rcases h with ⟨image, himage, hrestore⟩
  rcases h' with ⟨image', himage', hrestore'⟩
  rw [himage] at himage'
  cases himage'
  rw [hrestore] at hrestore'
  cases hrestore'
  exact ⟨rfl, rfl⟩

/-- No call of a stub blocks it. -/
theorem winstubWorld_answers (p : Deeds) (f : Files κ) (c : SysCall) :
    ∃ r p' f', (winstubWorld env start).Acts p f c r p' f' := by
  cases c with
  | moduleFileName capacity =>
      by_cases hfits : env.self.length < capacity
      · refine ⟨(env.self.length, env.self), p, f, rfl, rfl, Or.inr (Or.inl ⟨hfits, rfl, ?_⟩)⟩
        exact List.take_length
      · exact ⟨(capacity, []), p, f, rfl, rfl, Or.inr (Or.inr ⟨Nat.not_lt.mp hfits, rfl⟩)⟩
  | read path =>
      cases hnode : f (env.placeWide path) with
      | none => exact ⟨.error "", p, f, rfl, rfl, Or.inr hnode⟩
      | some content => exact ⟨.ok content, p, f, rfl, rfl, hnode⟩
  | write path content => exact ⟨.ok (), _, _, rfl, rfl⟩
  | args => exact ⟨env.args, p, f, rfl, rfl, rfl⟩
  | status path args =>
      by_cases hloads : ∃ content, f (env.place path) = some content ∧ env.loads content
      · exact ⟨.ok (some 0), _, f, rfl, env.child_refl f, hloads⟩
      · refine ⟨.error "", p, f, rfl, rfl, Or.inr fun content hcontent hcan => ?_⟩
        exact hloads ⟨content, hcontent, hcan⟩
  | removeFile path => exact ⟨.ok (), p, _, rfl, rfl⟩
  | eprintln line => exact ⟨(), _, f, rfl, rfl⟩

omit [DecidableEq κ] in
/-- A packed program that nothing keeps from being run: no call fails, its path fits, it
restores to a program, and its arguments are strings. -/
structure Smooth (env : Windows κ) (start : Files κ) (storedName : String) (original : Bytes) :
    Prop where
  quiet : env.Quiet
  calls : ¬env.mayFail
  writes : ¬env.writeFails
  removes : ¬env.removeFails
  short : env.self.length < initialCap * 2
  restored : RestoresTo env start storedName original
  loads : env.loads original
  strings : ∀ a ∈ env.args, IsUtf16 a

omit [DecidableEq κ] in
/-- Such a program ends with the exit code of what it ran, and without its temp file. -/
theorem Smooth.passes_on {storedName : String} {original : Bytes} {exit : Exit}
    (h : Smooth env start storedName original) (hends : Ends env start exit p f) :
    f (env.temp storedName) = none ∧
      ∃ status : Option Int32, p.ran = some status ∧ exit = .code (status.getD 1) := by
  rcases h.restored with ⟨image, himage, hrestore⟩
  rcases hends with ⟨houtcome, htidy⟩
  cases houtcome with
  | passedOn status stored hstored =>
      rcases hstored h.quiet with ⟨_, hstored⟩
      rcases hstored.unique h.restored with ⟨rfl, -⟩
      rcases htidy h.quiet stored rfl with hgone | hfails | hfails | hpanic
      · exact ⟨hgone, status, rfl, rfl⟩
      · exact (h.writes hfails).elim
      · exact (h.removes hfails).elim
      · cases hpanic
  | failed e wrote hcause =>
      exfalso
      rcases hcause h.quiet h.calls h.writes with
        hlong | hnone | ⟨image', himage', herror⟩ | ⟨stored, original', hstored, hcannot⟩
      · exact Nat.not_le.mpr h.short hlong
      · rw [hnone] at himage
        cases himage
      · rw [himage] at himage'
        cases himage'
        rw [herror] at hrestore
        cases hrestore
      · rcases hstored.unique h.restored with ⟨-, rfl⟩
        exact hcannot h.loads
  | panicked wrote hcause =>
      exfalso
      rcases hcause h.quiet with ⟨image', himage', -, hnot⟩ | ⟨a, ha, hbroken⟩
      · rw [himage] at himage'
        cases himage'
        exact hnot _ hrestore
      · exact hbroken (h.strings a ha)

/-- The call that runs a program. -/
def Runs : SysCall → Prop
  | .status _ _ => True
  | _ => False

/-- Only running a program makes one have run. -/
theorem acts_ran {c : SysCall} {r : Answer c} {p' : Deeds} {f' : Files κ}
    (hacts : (winstubWorld env start).Acts p f c r p' f') (hother : ¬Runs c)
    (h : p.ran = none) : p'.ran = none := by
  cases c with
  | moduleFileName capacity =>
      rcases hacts with ⟨rfl, -⟩
      exact h
  | read path =>
      cases r <;>
      · rcases hacts with ⟨rfl, -⟩
        exact h
  | write path content =>
      cases r <;>
      · rcases hacts with ⟨rfl, -⟩
        exact h
  | args =>
      rcases hacts with ⟨rfl, -⟩
      exact h
  | status path args => exact (hother trivial).elim
  | removeFile path =>
      cases r <;>
      · rcases hacts with ⟨rfl, -⟩
        exact h
  | eprintln line =>
      rcases hacts with ⟨rfl, -⟩
      exact h

/-- Such a stub comes to run its program. -/
theorem Smooth.exists_status {storedName : String} {original : Bytes}
    (hsmooth : Smooth env start storedName original) : ∃ path args next p f,
      Reaches env start (.call (.status path args) next) p f := by
  have hkeeps : Keeps (winstubWorld env start) (Ends env start) (main env.launch) .fresh start :=
    main_keeps
  rcases hkeeps.exists_end fun p f c _ => winstubWorld_answers p f c with ⟨exit, p, f, hsteps⟩
  rcases (hsmooth.passes_on (hsteps.stopped hkeeps)).2 with ⟨status, hran, -⟩
  have hchanged : ¬p.ran = none := by
    rw [hran]
    exact Option.some_ne_none status
  rcases hsteps.exists_call (I := fun p => p.ran = none) acts_ran rfl hchanged with
    ⟨c, next, p₁, f₁, hbefore, hruns⟩
  cases c with
  | status path args => exact ⟨path, args, next, p₁, f₁, hbefore⟩
  | _ => exact hruns.elim

end Runs

/-! ## Side by side -/

theorem tmpName_eq_numbered (proc : Process) (stem : String) :
    tmpName proc stem = numbered "upxz-" proc.id.toNat
      (uniqueTag proc.nanos proc.nanosAddr ++ "-" ++ stem ++ ".exe") := by
  simp only [tmpName, numbered, String.append_assoc]

/-- A temp file's name tells the process id, however its letters are read. -/
theorem id_of_toLower_tmpName {proc proc' : Process} {stem stem' : String}
    (h : (tmpName proc stem).toLower = (tmpName proc' stem').toLower) : proc.id = proc'.id := by
  rw [tmpName_eq_numbered, tmpName_eq_numbered] at h
  exact UInt32.toNat_inj.mp (eq_of_toLower_numbered h)

section SideBySide

variable {ι κ : Type} {env : ι → Windows κ} {start : Files κ}

/-- Stubs that run side by side, each under a process id of its own and from a packed file
that is no other's temp file, on a file system that may not tell the letters of a name apart
by their case.  Each allows the others, and what they run, to do anything that leaves its
packed file and its temp files alone. -/
structure SideBySide (env : ι → Windows κ) : Prop where
  rely_iff : ∀ {i f g}, (env i).rely f g ↔
    g (env i).packed = f (env i).packed ∧
      ∀ storedName, g ((env i).temp storedName) = f ((env i).temp storedName)
  names : ∀ {i j m n}, (env i).temp m = (env j).temp n →
    (tmpName (env i).launch.proc (sanitizeFilenameStem m)).toLower =
      (tmpName (env j).launch.proc (sanitizeFilenameStem n)).toLower
  pids : ∀ {i j}, (env i).launch.proc.id = (env j).launch.proc.id → i = j
  packed : ∀ {i j}, i ≠ j → ∀ n, (env j).packed ≠ (env i).temp n
  child : ∀ {i j}, i ≠ j → ∀ {f g}, (env i).child f g → (env j).rely f g

theorem SideBySide.quiet (h : SideBySide env) (i : ι) : (env i).Quiet where
  packed_kept := fun hrely => (h.rely_iff.mp hrely).1
  temp_kept := fun storedName hrely => (h.rely_iff.mp hrely).2 storedName

/-- Different process ids have different temp files. -/
theorem SideBySide.temp_ne (h : SideBySide env) {i j : ι} (hij : i ≠ j) (m n : String) :
    (env j).temp m ≠ (env i).temp n := fun hsame =>
  hij (h.pids (id_of_toLower_tmpName (h.names hsame))).symm

variable [DecidableEq κ]

/-- A stub's temp file is all that it changes of what others rely on. -/
theorem SideBySide.rely_update (h : SideBySide env) {i j : ι} (hij : i ≠ j) (f : Files κ)
    (storedName : String) (left : Option Bytes) :
    (env j).rely f (Function.update f ((env i).temp storedName) left) :=
  h.rely_iff.mpr ⟨Function.update_of_ne (h.packed hij storedName) _ _, fun other =>
    Function.update_of_ne (h.temp_ne hij other storedName) _ _⟩

/-- What one stub does to the files, every other one allows for. -/
theorem SideBySide.guarantees (h : SideBySide env) :
    Guarantees fun i => winstubWorld (env i) start := by
  intro i j hij p p' f f' c r hlegal hacts
  have hsame := (env j).rely_refl f
  cases c with
  | moduleFileName capacity =>
      rcases hacts with ⟨-, rfl, -⟩
      exact hsame
  | read path =>
      cases r with
      | ok content =>
          rcases hacts with ⟨-, rfl, -⟩
          exact hsame
      | error e =>
          rcases hacts with ⟨-, rfl, -⟩
          exact hsame
  | write path content =>
      rcases hlegal with ⟨storedName, rfl, -⟩
      cases r with
      | ok _ =>
          rcases hacts with ⟨-, rfl⟩
          exact h.rely_update hij f storedName (some content)
      | error e =>
          rcases hacts with ⟨-, -, left, rfl, -⟩
          exact h.rely_update hij f storedName left
  | args =>
      rcases hacts with ⟨-, rfl, -⟩
      exact hsame
  | status path args =>
      cases r with
      | ok code =>
          rcases hacts with ⟨-, hchild, -⟩
          exact h.child hij hchild
      | error e =>
          rcases hacts with ⟨-, rfl, -⟩
          exact hsame
  | removeFile path =>
      rcases hlegal with ⟨-, storedName, rfl⟩
      cases r with
      | ok _ =>
          rcases hacts with ⟨-, rfl⟩
          exact h.rely_update hij f storedName none
      | error e =>
          rcases hacts with ⟨-, rfl, -⟩
          exact hsame
  | eprintln line =>
      rcases hacts with ⟨-, rfl⟩
      exact hsame

/-- All stubs before their first call. -/
def launched (env : ι → Windows κ) (start : Files κ) :
    Parties ι SysCall Answer Deeds (Files κ) Exit where
  prog := fun i => main (env i).launch
  own := fun _ => .fresh
  shared := start

theorem launched_allKeep (env : ι → Windows κ) (start : Files κ) :
    AllKeep (fun i => winstubWorld (env i) start) (fun i => Ends (env i) start)
      (launched env start) :=
  fun _ => main_keeps

end SideBySide

/-! ## Two stubs of one image -/

/-- The process of a stub. -/
def cTemp (id : UInt32) : Process where
  tempDir := WindowsPath.ofText (asBytes "C:\\Temp")
  id := id
  nanos := 0
  nanosAddr := 0

/-- A stub on a system where no call fails, every file can be run, and what is run leaves the
files alone. -/
def loneWindows (id : UInt32) (self : Wide) (hself : self ≠ []) :
    Windows (Wide ⊕ WindowsPath) where
  launch :=
    { overflow := .checked
      backend := storedBackend
      proc := cTemp id
      display := fun _ => "C:\\Temp" }
  self := self
  self_ne := hself
  placeWide := .inl
  place := .inr
  args := [self]
  mayFail := False
  writeFails := False
  removeFails := False
  loads := fun _ => True
  child := fun f g => g = f
  child_refl := fun _ => rfl
  rely := fun f g => g (.inl self) = f (.inl self) ∧
    ∀ storedName, g (.inr (tempPath (cTemp id) storedName)) =
      f (.inr (tempPath (cTemp id) storedName))
  rely_refl := fun _ => ⟨rfl, fun _ => rfl⟩
  rely_trans := fun h h' => ⟨h'.1.trans h.1, fun path => (h'.2 path).trans (h.2 path)⟩

/-- Where two copies of the packed `hi.txt` are. -/
def copyPath : Bool → Wide
  | true => encodeUtf16 "a.exe"
  | false => encodeUtf16 "b.exe"

theorem copyPath_ne_nil (i : Bool) : copyPath i ≠ [] := by
  cases i <;> decide

/-- The two copies, each in a process of its own. -/
def pairWindows (i : Bool) : Windows (Wide ⊕ WindowsPath) :=
  loneWindows (if i then 7 else 8) (copyPath i) (copyPath_ne_nil i)

/-- The copies, and nothing else. -/
def pairImages : Files (Wide ⊕ WindowsPath) := fun place =>
  if place = .inl (copyPath true) ∨ place = .inl (copyPath false) then some Stub.hiImage else none

theorem pairWindows_sideBySide : SideBySide pairWindows where
  rely_iff := Iff.rfl
  names := by
    intro i j m n h
    have hpaths : tempPath (pairWindows i).launch.proc m = tempPath (pairWindows j).launch.proc n :=
      Sum.inr.inj h
    have hname := (tempPath_isChild (pairWindows i).launch.proc m).fileName
    rw [hpaths, (tempPath_isChild (pairWindows j).launch.proc n).fileName] at hname
    rw [asBytes_injective (Option.some.inj hname)]
  pids := by decide
  packed := by
    intro i j _ n h
    cases h
  child := by
    intro i j _ f g h
    cases h
    exact (pairWindows j).rely_refl f

theorem pairWindows_smooth (i : Bool) :
    Smooth (pairWindows i) pairImages "hi.txt" (asBytes "hi") where
  quiet := pairWindows_sideBySide.quiet i
  calls := id
  writes := id
  removes := id
  short := by cases i <;> decide
  restored := by
    refine ⟨Stub.hiImage, ?_, ?_⟩
    · cases i <;> decide
    · cases i <;> decide +kernel
  loads := trivial
  strings := by cases i <;> decide

/-! ## Every run -/

section Theorems

variable {κ : Type} [DecidableEq κ] {env : Windows κ} {start f : Files κ} {p : Deeds}

/-- As long as others leave its files alone, what a stub runs is what its image restores to,
in its temp file, with the user's arguments. -/
theorem main_starts_original {path : WindowsPath} {args : List String}
    {next : Except String (Option Int32) → Running Exit} (hquiet : env.Quiet)
    (h : Reaches env start (.call (.status path args) next) p f) :
    args.map encodeUtf16 = env.args.drop 1 ∧ ∃ storedName original,
      path = tempPath env.launch.proc storedName ∧ RestoresTo env start storedName original ∧
      f (env.place path) = some original := by
  rcases h.legal main_keeps with ⟨hargs, storedName, hpath, hstands⟩
  rcases hstands hquiet with ⟨original, hrestored, hcontent⟩
  exact ⟨hargs, storedName, original, hpath, hrestored, hcontent⟩

/-- One of the copies comes to run `hi`. -/
theorem main_starts_original_hi : ∃ path args next p f,
    Reaches (pairWindows true) pairImages (.call (.status path args) next) p f ∧
    ∃ storedName original, RestoresTo (pairWindows true) pairImages storedName original ∧
      f ((pairWindows true).place path) = some original := by
  rcases (pairWindows_smooth true).exists_status with ⟨path, args, next, p, f, h⟩
  rcases (main_starts_original (pairWindows_smooth true).quiet h).2 with
    ⟨storedName, original, -, hrestored, hstands⟩
  exact ⟨path, args, next, p, f, h, storedName, original, hrestored, hstands⟩

/-- However a run ends, it has passed on the exit code of what it ran, or said one line, or
panicked for one of two reasons; and it leaves a temp file behind only when writing or
removing failed or it panicked. -/
theorem main_ends {exit : Exit} (h : Reaches env start (.done exit) p f) :
    Outcome env start exit p ∧ Tidy env exit p f :=
  h.stopped main_keeps

/-- A run of one of the copies ends as promised. -/
theorem main_ends_hi : ∃ exit p f, Reaches (pairWindows true) pairImages (.done exit) p f ∧
    Outcome (pairWindows true) pairImages exit p ∧ Tidy (pairWindows true) exit p f := by
  have hkeeps : Keeps (winstubWorld (pairWindows true) pairImages)
      (Ends (pairWindows true) pairImages) (main (pairWindows true).launch) .fresh pairImages :=
    main_keeps
  rcases hkeeps.exists_end fun p f c _ => winstubWorld_answers p f c with ⟨exit, p, f, h⟩
  exact ⟨exit, p, f, h, main_ends h⟩

/-- Where nothing is in its way, a stub can run to its end from each of its points, and every
end passes on the exit code of the program and leaves no temp file. -/
theorem main_passes_on {storedName : String} {original : Bytes} {q : Running Exit}
    (hsmooth : Smooth env start storedName original) (h : Reaches env start q p f) :
    (∃ exit p' f', Steps (winstubWorld env start) q p f (.done exit) p' f') ∧
      ∀ exit p' f', Steps (winstubWorld env start) q p f (.done exit) p' f' →
        f' (env.temp storedName) = none ∧
          ∃ status : Option Int32, p'.ran = some status ∧ exit = .code (status.getD 1) := by
  have hkeeps := main_keeps.of_steps h
  constructor
  · exact hkeeps.exists_end fun p f c _ => winstubWorld_answers p f c
  · intro exit p' f' hsteps
    exact hsmooth.passes_on (hsteps.stopped hkeeps)

/-- A run of one of the copies can end, and leaves no temp file. -/
theorem main_passes_on_hi : ∃ exit p f, Reaches (pairWindows true) pairImages (.done exit) p f ∧
    f ((pairWindows true).temp "hi.txt") = none := by
  have hall := main_passes_on (pairWindows_smooth true) (.refl ..)
  rcases hall.1 with ⟨exit, p, f, h⟩
  exact ⟨exit, p, f, h, (hall.2 exit p f h).1⟩

end Theorems

/-! ## Every interleaving -/

section Interleavings

variable {ι κ : Type} {env : ι → Windows κ} {start : Files κ} [DecidableEq κ] [DecidableEq ι]

/-- However their calls are interleaved, each stub runs what its own image restores to, with
its own arguments; each that ends, ends as if it had been alone; and none keeps another from
coming to its end. -/
theorem winstubs_start_own (hside : SideBySide env)
    {now : Parties ι SysCall Answer Deeds (Files κ) Exit}
    (hrun : Interleaves (fun i => winstubWorld (env i) start) (launched env start) now) (i : ι) :
    (∀ path args next, now.prog i = .call (.status path args) next →
      args.map encodeUtf16 = (env i).args.drop 1 ∧ ∃ storedName original,
        path = tempPath (env i).launch.proc storedName ∧
        RestoresTo (env i) start storedName original ∧
        now.shared ((env i).place path) = some original) ∧
    (∀ exit, now.prog i = .done exit →
      Outcome (env i) start exit (now.own i) ∧ Tidy (env i) exit (now.own i) now.shared) ∧
    ∃ last exit, Interleaves (fun i => winstubWorld (env i) start) now last ∧
      last.prog i = .done exit := by
  refine ⟨?_, ?_, ?_⟩
  · intro path args next hturn
    rcases hrun.legal hside.guarantees (launched_allKeep env start) hturn with
      ⟨hargs, storedName, hpath, hstands⟩
    rcases hstands (hside.quiet i) with ⟨original, hrestored, hcontent⟩
    exact ⟨hargs, storedName, original, hpath, hrestored, hcontent⟩
  · intro exit hdone
    exact hrun.stopped hside.guarantees (launched_allKeep env start) hdone
  · have hkeep := hrun.keeps hside.guarantees (launched_allKeep env start)
    exact hkeep.exists_end hside.guarantees i fun p f c _ => winstubWorld_answers p f c

/-- Either copy can go on to its end from the start. -/
theorem winstubs_start_own_pair : ∃ last exit,
    Interleaves (fun i => winstubWorld (pairWindows i) pairImages)
      (launched pairWindows pairImages) last ∧ last.prog true = .done exit :=
  (winstubs_start_own pairWindows_sideBySide (.refl (launched pairWindows pairImages)) true).2.2

end Interleavings

end Winstub
end Upxz
