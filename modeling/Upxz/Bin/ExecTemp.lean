import Upxz.Bin.ExecMemfd
import Upxz.Loader.Darwin
import Upxz.Machine.Parties

/-!
# Bin - Running an entry through a temp file

On macOS `upxz --bin` writes the entry it found to a temp file, has it signed, seals it, runs
it to its end and removes it.  The definitions follow `exec_temp_macos` in `bin_run.rs`; the
calls it makes of the system are answered by a world that other processes share.

Main results:

- Theorem `execTempMacos_keeps`: it makes legal calls only and ends as promised.
- Theorem `bin_starts_entry_on_macos`: what it runs is the entry, signed and sealed, with the
  trailing arguments.
- Theorem `bin_ends_on_macos`: how it ends, and what it leaves behind.
- Theorem `bin_leftover_blocks`: a sealed file that is left behind stops every later run that
  finds it under its temp path.
- Theorem `bin_tells_on_macos`: how the whole command ends, and what the user is told.
- Theorem `bins_start_own`: processes that run side by side each run their own entry.
-/

namespace Upxz
namespace Bin

open Machine Format Cli
open Loader (Files TempNode)

/-! ## Calls -/

/-- What a program that was run to its end leaves: its exit code, unless a signal ended it,
and what it wrote to stderr. -/
structure Output where
  code : Option Int32
  stderr : Bytes
deriving DecidableEq, Repr

/-- The calls made of the system and of the standard library. -/
inductive SysCall where
  | write (path : Path) (content : Bytes)
  | codesign (path : Path)
  | setPermissions (path : Path) (mode : Nat)
  | status (path : Path) (args : List Bytes)
  | removeFile (path : Path)

/-- What a call returns. -/
abbrev Answer : SysCall → Type
  | .write _ _ => Except String Unit
  | .codesign _ => Except String Output
  | .setPermissions _ _ => Except String Unit
  | .status _ _ => Except String (Option Int32)
  | .removeFile _ => Except String Unit

/-- A program that makes these calls. -/
abbrev Running := Calls SysCall Answer

/-- Make one of these calls. -/
def ask (c : SysCall) : Running (Answer c) :=
  Calls.make c

@[simp]
theorem ask_bind {β : Type} (c : SysCall) (f : Answer c → Running β) :
    ask c >>= f = .call c f :=
  rfl

/-- `fs::write`. -/
def writeFile (path : Path) (content : Bytes) : Running (Except String Unit) :=
  ask (.write path content)

/-- `codesign --sign - --force -- path`, run to its end. -/
def codesign (path : Path) : Running (Except String Output) :=
  ask (.codesign path)

/-- `fs::set_permissions`. -/
def setPermissions (path : Path) (mode : Nat) : Running (Except String Unit) :=
  ask (.setPermissions path mode)

/-- `Command::status`: run a program to its end. -/
def commandStatus (path : Path) (args : List Bytes) :
    Running (Except String (Option Int32)) :=
  ask (.status path args)

/-- `fs::remove_file`. -/
def removeFile (path : Path) : Running (Except String Unit) :=
  ask (.removeFile path)

/-! ## The program -/

/-- Why no program was run. -/
inductive Failure where
  | write (e : String)
  | spawnCodesign (e : String)
  | codesign (output : Output)
  | chmod (e : String)
  | exec (e : String)
deriving DecidableEq, Repr

/-- The characters `str::trim` takes off: those with the property `White_Space`. -/
def isWhiteSpace (c : Char) : Bool :=
  (0x09 ≤ c.val && c.val ≤ 0x0D) || (0x2000 ≤ c.val && c.val ≤ 0x200A) ||
    c.val ∈ [0x20, 0x85, 0xA0, 0x1680, 0x2028, 0x2029, 0x202F, 0x205F, 0x3000]

/-- `str::trim`. -/
def trim (s : String) : String :=
  String.ofList ((s.toList.dropWhile isWhiteSpace).rdropWhile isWhiteSpace)

/-- `{:?}` of an exit code. -/
def debugCode : Option Int32 → String
  | some code => s!"Some({code})"
  | none => "None"

/-- What the user is told, for a temp path. -/
def Failure.report (tmp : Path) : Failure → Error
  | .write e => [s!"cannot write inner binary to {display tmp}", e]
  | .spawnCodesign e => ["failed to spawn codesign", e]
  | .codesign output => [s!"codesign failed on {display tmp} (exit {debugCode output.code}): " ++
      trim (toStringLossy output.stderr)]
  | .chmod e => [s!"cannot chmod inner binary {display tmp}", e]
  | .exec e => [s!"failed to exec inner binary {display tmp}", e]

/-- The directory for temp files, and the process id. -/
structure Process where
  tempDir : Path
  id : UInt32
deriving DecidableEq, Repr

/-- The name of the temp file. -/
def tmpName (id : UInt32) (name : String) : String :=
  numbered ".upxz-bin-" id.toNat name

/-- The temp path. -/
def tmpPath (proc : Process) (name : String) : Path :=
  join proc.tempDir (asBytes (tmpName proc.id name))

/-- Seal the signed file, run it and remove it.  It is not removed if it cannot be sealed or
run. -/
def sealAndRun (tmp : Path) (trailing : List String) : Running (Except Failure Int32) := do
  match ← setPermissions tmp 0o500 with
  | .error e => return .error (.chmod e)
  | .ok () => do
      match ← commandStatus tmp (trailing.map asBytes) with
      | .error e => return .error (.exec e)
      | .ok status => do
          let _ ← removeFile tmp
          return .ok (status.getD 1)

/-- Have the file signed, and go on with it.  It is not removed if `codesign` cannot be run. -/
def signAndRun (tmp : Path) (trailing : List String) : Running (Except Failure Int32) := do
  match ← codesign tmp with
  | .error e => return .error (.spawnCodesign e)
  | .ok output =>
      if output.code ≠ some 0 then do
        let _ ← removeFile tmp
        return .error (.codesign output)
      else sealAndRun tmp trailing

/-- Run `bytes` under a name through a temp file, to the exit code of the process. -/
def execTempMacos (proc : Process) (name : String) (bytes : Bytes) (trailing : List String) :
    Running (Except Failure Int32) := do
  let tmp := tmpPath proc name
  match ← writeFile tmp bytes with
  | .error e => return .error (.write e)
  | .ok () => signAndRun tmp trailing

/-- What comes back of it to `main`. -/
def told (tmp : Path) : Except Failure Int32 → Exec Error Int32
  | .ok code => .ok code
  | .error failure => .error (.err (failure.report tmp))

/-- `upxz --bin` on macOS, to the exit code of the process. -/
def binMacos {κ τ : Type} (host : Host κ) (lib : ArchiveLibrary τ) (proc : Process)
    (archive : Path) (innerPath : String) (trailing : List String) (disk : Disk κ) :
    Running (Exec Error Int32) :=
  match run host lib archive innerPath trailing disk with
  | .error fault => return .error fault
  | .ok call => do
      let result ← execTempMacos proc call.name call.bytes call.trailing
      return told (tmpPath proc call.name) result

/-! ## The world -/

/-- A macOS system around one process: what it was asked to run, which calls may fail, what
`codesign` makes of a file and which files can be run, and what the program it runs and other
processes may do to the files.  A path without a slash is searched for before it is run. -/
structure Macos (κ : Type) where
  proc : Process
  call : ExecInner
  root : Bool
  newMode : Nat
  place : Path → κ
  search : Path → Option κ
  mayFail : Prop
  writeFails : Prop
  removeFails : Prop
  signs : Bytes → Bytes → Prop
  loads : Bytes → Prop
  child : Files κ → Files κ → Prop
  child_refl : ∀ f, child f f
  rely : Files κ → Files κ → Prop
  rely_refl : ∀ f, rely f f
  rely_trans : ∀ {f g h}, rely f g → rely g h → rely f h

section Worlds

variable {κ : Type} (env : Macos κ)

/-- The temp path of the process. -/
def Macos.tmpPath : Path :=
  Bin.tmpPath env.proc env.call.name

/-- The place of its temp file. -/
def Macos.tmp : κ :=
  env.place env.tmpPath

/-- Where the file is that a path is run from. -/
def Macos.program (path : Path) : Option κ :=
  if slash ∈ path then some (env.place path) else env.search path

/-- The file can be written. -/
def Macos.Writable (node : Option TempNode) : Prop :=
  ∀ file, node = some file → env.root = true ∨ file.OwnerWritable

/-- A file that can be run. -/
def Macos.Runnable (node : TempNode) : Prop :=
  env.loads node.content ∧ node.mode &&& 0o100 ≠ 0

/-- What the process has done: it wrote its temp file, and how what it ran ended. -/
structure Deeds where
  wrote : Bool
  ran : Option (Option Int32)

/-- Before the first call. -/
def Deeds.fresh : Deeds where
  wrote := false
  ran := none

/-- Others leave the temp file alone. -/
structure Macos.Quiet : Prop where
  tmp_kept : ∀ {f g}, env.rely f g → g env.tmp = f env.tmp

variable [DecidableEq κ]

/-- The answers a call may get, and what they leave. -/
def Acts (p : Deeds) (f : Files κ) : (c : SysCall) → Answer c → Deeds → Files κ → Prop
  -- A file that is there keeps its mode.
  | .write path content, .ok (), p', f' => p' = { p with wrote := true } ∧
      env.Writable (f (env.place path)) ∧
      f' = Function.update f (env.place path)
        (some ⟨((f (env.place path)).map TempNode.mode).getD env.newMode, content⟩)
  | .write path content, .error _, p', f' => p' = p ∧
      (f' = f ∧ (env.writeFails ∨ ¬env.Writable (f (env.place path))) ∨
        env.writeFails ∧ env.Writable (f (env.place path)) ∧ ∃ part, part <+: content ∧
          f' = Function.update f (env.place path)
            (some ⟨((f (env.place path)).map TempNode.mode).getD env.newMode, part⟩))
  | .codesign path, .ok output, p', f' => p' = p ∧
      if output.code = some 0 then
        ∃ node content, f (env.place path) = some node ∧ env.signs node.content content ∧
          f' = Function.update f (env.place path) (some { node with content := content })
      else (∃ left, f' = Function.update f (env.place path) left) ∧ (env.mayFail ∨
        ∀ node content, f (env.place path) = some node → ¬env.signs node.content content)
  | .codesign _, .error _, p', f' => p' = p ∧ f' = f ∧ env.mayFail
  | .setPermissions path mode, .ok (), p', f' => p' = p ∧ ∃ node,
      f (env.place path) = some node ∧
      f' = Function.update f (env.place path) (some { node with mode := mode })
  | .setPermissions path _, .error _, p', f' => p' = p ∧ f' = f ∧
      (env.mayFail ∨ f (env.place path) = none)
  | .status path args, .ok status, p', f' => p' = { p with ran := some status } ∧
      env.child f f' ∧ (∀ a ∈ args, 0 ∉ a) ∧
      ∃ place node, env.program path = some place ∧ f place = some node ∧ env.Runnable node
  | .status path args, .error _, p', f' => p' = p ∧ f' = f ∧ (env.mayFail ∨ (∃ a ∈ args, 0 ∈ a) ∨
      ∀ place node, env.program path = some place → f place = some node → ¬env.Runnable node)
  | .removeFile path, .ok (), p', f' => p' = p ∧ f' = Function.update f (env.place path) none
  | .removeFile path, .error _, p', f' => p' = p ∧ f' = f ∧
      (env.removeFails ∨ f (env.place path) = none)

/-- The entry, signed and sealed, stands in the temp file. -/
def SealedEntry (f : Files κ) : Prop :=
  ∃ content, env.signs env.call.bytes content ∧ f env.tmp = some ⟨0o500, content⟩

/-- The calls a process should make: it touches only its own temp file, once it has written
it, and runs there the signed entry with the trailing arguments, if the file could be
written. -/
def Legal (start : Files κ) (p : Deeds) (f : Files κ) : SysCall → Prop
  | .write path content => path = env.tmpPath ∧ content = env.call.bytes
  | .codesign path => path = env.tmpPath ∧ p.wrote = true
  | .setPermissions path mode => path = env.tmpPath ∧ p.wrote = true ∧ mode = 0o500
  | .status path args => path = env.tmpPath ∧ args = env.call.trailing.map asBytes ∧
      (env.Quiet → env.Writable (start env.tmp) ∧ SealedEntry env f)
  | .removeFile path => path = env.tmpPath ∧ p.wrote = true

/-- The world of a process. -/
def binWorld (start : Files κ) : World SysCall Answer Deeds (Files κ) where
  Legal := Legal env start
  Acts := Acts env
  Rely := env.rely
  rely_refl := env.rely_refl
  rely_trans := env.rely_trans

/-! ## The promise -/

variable (start : Files κ)

omit [DecidableEq κ] in
/-- Why nothing is run when no call fails: a file that is in the way, an entry that cannot be
signed, or one that cannot be run with these arguments. -/
def Cause : Failure → Prop
  | .write _ => ¬env.Writable (start env.tmp)
  | .spawnCodesign _ => False
  | .codesign _ => ∀ content, ¬env.signs env.call.bytes content
  | .chmod _ => False
  | .exec _ => env.proc.tempDir = [] ∨ (∃ a ∈ env.call.trailing, 0 ∈ asBytes a) ∨
      ∃ content, env.signs env.call.bytes content ∧ ¬env.loads content

omit [DecidableEq κ] in
/-- What is left under the temp path when nothing was run: what was there before, nothing, or
the entry as far as it had come. -/
def Residue (f : Files κ) : Failure → Prop
  | .write _ => f env.tmp = start env.tmp ∨
      env.writeFails ∧ env.Writable (start env.tmp) ∧
        ∃ mode part, part <+: env.call.bytes ∧ f env.tmp = some ⟨mode, part⟩
  | .spawnCodesign _ => ∃ mode, f env.tmp = some ⟨mode, env.call.bytes⟩
  | .codesign _ => f env.tmp = none ∨ env.removeFails
  | .chmod _ => ∃ mode content, env.signs env.call.bytes content ∧
      f env.tmp = some ⟨mode, content⟩
  | .exec _ => SealedEntry env f

omit [DecidableEq κ] in
/-- How a process ends: with the exit code of what it ran and without its temp file, or with a
failure. -/
def Ends (result : Except Failure Int32) (p : Deeds) (f : Files κ) : Prop :=
  match result with
  | .ok code => ∃ status : Option Int32, p.ran = some status ∧ code = status.getD 1 ∧
      (env.Quiet → env.Writable (start env.tmp) ∧ (f env.tmp = none ∨ env.removeFails))
  | .error failure => p.ran = none ∧
      (env.Quiet → ¬env.mayFail → ¬env.writeFails → Cause env start failure) ∧
      (env.Quiet → Residue env start f failure ∧
        ((∃ e, failure = .write e) ∨ env.Writable (start env.tmp)))

end Worlds

/-! ## The promise is kept -/

section Promises

variable {κ : Type} [DecidableEq κ] {env : Macos κ} {start f : Files κ}

omit [DecidableEq κ] in
theorem SealedEntry.rely {g : Files κ} (h : SealedEntry env f) (hquiet : env.Quiet)
    (hrely : env.rely f g) : SealedEntry env g := by
  rcases h with ⟨content, hsigned, hstands⟩
  exact ⟨content, hsigned, (hquiet.tmp_kept hrely).trans hstands⟩

omit [DecidableEq κ] in
/-- What is left is what is there. -/
theorem residue_congr {g : Files κ} {failure : Failure} (hsame : g env.tmp = f env.tmp)
    (h : Residue env start f failure) : Residue env start g failure := by
  cases failure <;>
  · simp only [Residue, SealedEntry] at h ⊢
    rw [hsame]
    exact h

omit [DecidableEq κ] in
/-- The promise allows for what others do. -/
theorem Ends.rely {result : Except Failure Int32} {p : Deeds} {g : Files κ}
    (h : Ends env start result p f) (hrely : env.rely f g) : Ends env start result p g := by
  cases result with
  | ok code =>
      rcases h with ⟨status, hran, hcode, hgone⟩
      refine ⟨status, hran, hcode, fun hquiet => ?_⟩
      rw [hquiet.tmp_kept hrely]
      exact hgone hquiet
  | error failure =>
      rcases h with ⟨hran, hcause, hresidue⟩
      exact ⟨hran, hcause, fun hquiet =>
        ⟨residue_congr (hquiet.tmp_kept hrely) (hresidue hquiet).1, (hresidue hquiet).2⟩⟩

/-- Removing the temp file leaves none there, unless it cannot be removed. -/
theorem removeFile_keeps {p : Deeds} (hwrote : p.wrote = true) :
    Keeps (binWorld env start)
      (fun _ p' f' => p' = p ∧ (env.Quiet → f' env.tmp = none ∨ env.removeFails))
      (removeFile env.tmpPath) p f := by
  refine keeps_call.mpr fun u _ => ⟨⟨rfl, hwrote⟩, ?_⟩
  intro result p₁ f₁ hacts v hv
  cases result with
  | ok _ =>
      rcases hacts with ⟨rfl, rfl⟩
      refine ⟨rfl, fun hquiet => Or.inl ?_⟩
      rw [hquiet.tmp_kept hv]
      exact Function.update_self ..
  | error e =>
      rcases hacts with ⟨rfl, rfl, hfails | hgone⟩
      · exact ⟨rfl, fun _ => Or.inr hfails⟩
      · refine ⟨rfl, fun hquiet => Or.inl ?_⟩
        rw [hquiet.tmp_kept hv]
        exact hgone

omit [DecidableEq κ] in
/-- In a directory that has a name the temp path is run from its own place. -/
theorem program_tmpPath (htemp : env.proc.tempDir ≠ []) :
    env.program env.tmpPath = some env.tmp := by
  have hslash : slash ∈ env.tmpPath :=
    slash_mem_join htemp (asBytes (tmpName env.proc.id env.call.name))
  exact if_pos hslash

omit [DecidableEq κ] in
/-- Why the sealed entry cannot be run when no call fails. -/
theorem cause_of_not_runnable (hstands : SealedEntry env f) {e : String}
    (h : (∃ a ∈ env.call.trailing.map asBytes, 0 ∈ a) ∨
      ∀ place node, env.program env.tmpPath = some place → f place = some node →
        ¬env.Runnable node) : Cause env start (.exec e) := by
  rcases h with hnul | hcannot
  · rcases hnul with ⟨a, ha, hzero⟩
    rcases List.mem_map.mp ha with ⟨text, htext, rfl⟩
    exact Or.inr (Or.inl ⟨text, htext, hzero⟩)
  · by_cases htemp : env.proc.tempDir = []
    · exact Or.inl htemp
    · rcases hstands with ⟨content, hsigned, hnode⟩
      have hmode : 0o500 &&& 0o100 ≠ 0 := by decide
      refine Or.inr (Or.inr ⟨content, hsigned, fun hloads => ?_⟩)
      exact hcannot env.tmp _ (program_tmpPath htemp) hnode ⟨hloads, hmode⟩

/-- Once the entry is signed it is sealed, run and removed. -/
theorem sealAndRun_keeps {p : Deeds} (hwrote : p.wrote = true) (hran : p.ran = none)
    (hfree : env.Quiet → env.Writable (start env.tmp))
    (hstands : env.Quiet → ∃ mode content, env.signs env.call.bytes content ∧
      f env.tmp = some ⟨mode, content⟩) :
    Keeps (binWorld env start) (Ends env start) (sealAndRun env.tmpPath env.call.trailing) p f := by
  unfold sealAndRun setPermissions
  rw [ask_bind]
  refine keeps_call.mpr fun u hu => ⟨⟨rfl, hwrote, rfl⟩, ?_⟩
  have hsigned : env.Quiet → ∃ mode content, env.signs env.call.bytes content ∧
      u env.tmp = some ⟨mode, content⟩ := by
    intro hquiet
    rw [hquiet.tmp_kept hu]
    exact hstands hquiet
  intro result p₁ f₁ hacts
  cases result with
  | error e =>
      rcases hacts with ⟨rfl, rfl, hcannot⟩
      refine fun v hv => Ends.rely ⟨hran, ?_, fun hquiet =>
        ⟨hsigned hquiet, Or.inr (hfree hquiet)⟩⟩ hv
      intro hquiet hcalls _
      rcases hsigned hquiet with ⟨mode, content, -, hnode⟩
      have hnone : f₁ env.tmp = none := hcannot.resolve_left hcalls
      rw [hnode] at hnone
      cases hnone
  | ok _ =>
      rcases hacts with ⟨rfl, node, hnode, rfl⟩
      dsimp only
      unfold commandStatus
      rw [ask_bind]
      have hsealed : env.Quiet →
          SealedEntry env (Function.update u env.tmp (some { node with mode := 0o500 })) := by
        intro hquiet
        rcases hsigned hquiet with ⟨mode, content, hsigns, hcontent⟩
        have hsame : u env.tmp = some node := hnode
        rw [hcontent] at hsame
        cases hsame
        exact ⟨content, hsigns, Function.update_self ..⟩
      refine keeps_call.mpr fun u₂ hu₂ => ⟨⟨rfl, rfl, fun hquiet =>
        ⟨hfree hquiet, (hsealed hquiet).rely hquiet hu₂⟩⟩, ?_⟩
      intro status p₂ f₂ hacts
      cases status with
      | error e =>
          rcases hacts with ⟨rfl, rfl, hcannot⟩
          have hstays : env.Quiet → SealedEntry env f₂ := fun hquiet =>
            (hsealed hquiet).rely hquiet hu₂
          refine fun v hv => Ends.rely ⟨hran, ?_, fun hquiet =>
            ⟨hstays hquiet, Or.inr (hfree hquiet)⟩⟩ hv
          intro hquiet hcalls _
          exact cause_of_not_runnable (hstays hquiet) (hcannot.resolve_left hcalls)
      | ok status =>
          rcases hacts with ⟨rfl, -, -, -⟩
          refine Keeps.bind (removeFile_keeps hwrote) ?_
          rintro _ p₃ f₃ ⟨rfl, hgone⟩ v hv
          exact Ends.rely ⟨status, rfl, rfl, fun hquiet => ⟨hfree hquiet, hgone hquiet⟩⟩ hv

/-- Once the entry is written it is signed, and then sealed, run and removed. -/
theorem signAndRun_keeps {p : Deeds} (hwrote : p.wrote = true) (hran : p.ran = none)
    (hfree : env.Quiet → env.Writable (start env.tmp))
    (hstands : env.Quiet → ∃ mode, f env.tmp = some ⟨mode, env.call.bytes⟩) :
    Keeps (binWorld env start) (Ends env start) (signAndRun env.tmpPath env.call.trailing) p f := by
  unfold signAndRun codesign
  rw [ask_bind]
  refine keeps_call.mpr fun u hu => ⟨⟨rfl, hwrote⟩, ?_⟩
  have hentry : env.Quiet → ∃ mode, u env.tmp = some ⟨mode, env.call.bytes⟩ := by
    intro hquiet
    rw [hquiet.tmp_kept hu]
    exact hstands hquiet
  intro result p₁ f₁ hacts
  cases result with
  | error e =>
      rcases hacts with ⟨rfl, rfl, hfails⟩
      exact fun v hv => Ends.rely ⟨hran, fun _ hcalls => (hcalls hfails).elim, fun hquiet =>
        ⟨hentry hquiet, Or.inr (hfree hquiet)⟩⟩ hv
  | ok output =>
      rcases hacts with ⟨rfl, hacts⟩
      dsimp only
      by_cases hcode : output.code = some 0
      · rw [if_pos hcode] at hacts
        rcases hacts with ⟨node, content, hnode, hsigns, rfl⟩
        rw [if_neg (not_not.mpr hcode)]
        refine sealAndRun_keeps hwrote hran hfree fun hquiet => ?_
        rcases hentry hquiet with ⟨mode, hbytes⟩
        have hsame : u env.tmp = some node := hnode
        rw [hbytes] at hsame
        cases hsame
        exact ⟨mode, content, hsigns, Function.update_self ..⟩
      · rw [if_neg hcode] at hacts
        rw [if_pos hcode]
        rcases hacts with ⟨-, hcannot⟩
        refine Keeps.bind (removeFile_keeps hwrote) ?_
        rintro _ p₂ f₂ ⟨rfl, hgone⟩ v hv
        refine Ends.rely ⟨hran, ?_, fun hquiet =>
          ⟨hgone hquiet, Or.inr (hfree hquiet)⟩⟩ hv
        intro hquiet hcalls _ content hsigns
        rcases hentry hquiet with ⟨mode, hbytes⟩
        exact hcannot.resolve_left hcalls _ content hbytes hsigns

/-- The process makes legal calls only and ends as promised. -/
theorem execTempMacos_keeps :
    Keeps (binWorld env start) (Ends env start)
      (execTempMacos env.proc env.call.name env.call.bytes env.call.trailing) .fresh start := by
  unfold execTempMacos writeFile
  rw [ask_bind]
  refine keeps_call.mpr fun u hu => ⟨⟨rfl, rfl⟩, ?_⟩
  intro result p₁ f₁ hacts
  cases result with
  | error e =>
      rcases hacts with ⟨rfl, hwhy⟩
      refine fun v hv => Ends.rely ⟨rfl, ?_, ?_⟩ hv
      · intro hquiet _ hwrites hwritable
        rcases hwhy with ⟨rfl, hfails | hdenied⟩ | ⟨hfails, -⟩
        · exact hwrites hfails
        · rw [← hquiet.tmp_kept hu] at hwritable
          exact hdenied hwritable
        · exact hwrites hfails
      · intro hquiet
        refine ⟨?_, Or.inl ⟨e, rfl⟩⟩
        rcases hwhy with ⟨rfl, -⟩ | ⟨hfails, hwritable, part, hpart, rfl⟩
        · exact Or.inl (hquiet.tmp_kept hu)
        · have hfree : env.Writable (start env.tmp) := by
            rw [← hquiet.tmp_kept hu]
            exact hwritable
          exact Or.inr ⟨hfails, hfree, _, part, hpart, Function.update_self ..⟩
  | ok _ =>
      rcases hacts with ⟨rfl, hwritable, rfl⟩
      refine signAndRun_keeps rfl rfl (fun hquiet => ?_) fun _ => ⟨_, Function.update_self ..⟩
      rw [← hquiet.tmp_kept hu]
      exact hwritable

/-- How the command ends, for what it found in the archive: with the error of the search, or
as running the entry ends. -/
def CommandEnds (env : Macos κ) (start : Files κ) (found : Exec Error ExecInner)
    (result : Exec Error Int32) (p : Deeds) (f : Files κ) : Prop :=
  match found with
  | .error fault => result = .error fault ∧ p.ran = none ∧ (env.Quiet → f env.tmp = start env.tmp)
  | .ok _ => ∃ ended, result = told env.tmpPath ended ∧ Ends env start ended p f

/-- The command makes legal calls only and ends as promised. -/
theorem binMacos_keeps {η τ : Type} {host : Host η} {lib : ArchiveLibrary τ} {archive : Path}
    {innerPath : String} {trailing : List String} {disk : Disk η}
    (hcall : ∀ call, run host lib archive innerPath trailing disk = .ok call → env.call = call) :
    Keeps (binWorld env start)
      (CommandEnds env start (run host lib archive innerPath trailing disk))
      (binMacos host lib env.proc archive innerPath trailing disk) .fresh start := by
  unfold binMacos
  cases hrun : run host lib archive innerPath trailing disk with
  | error fault => exact fun v hv => ⟨rfl, rfl, fun hquiet => hquiet.tmp_kept hv⟩
  | ok call =>
      rw [← hcall call hrun]
      refine execTempMacos_keeps.bind ?_
      intro ended p f hends v hv
      exact ⟨ended, rfl, hends.rely hv⟩

end Promises

/-! ## One process -/

section Runs

variable {κ : Type} [DecidableEq κ] {env : Macos κ} {start f : Files κ} {p : Deeds}

/-- A run of the process comes to this point. -/
def Reaches (env : Macos κ) (start : Files κ) (q : Running (Except Failure Int32)) (p : Deeds)
    (f : Files κ) : Prop :=
  Steps (binWorld env start) (execTempMacos env.proc env.call.name env.call.bytes env.call.trailing)
    .fresh start q p f

/-- No call of a process blocks it. -/
theorem binWorld_answers (p : Deeds) (f : Files κ) (c : SysCall) :
    ∃ r p' f', (binWorld env start).Acts p f c r p' f' := by
  cases c with
  | write path content =>
      by_cases hwritable : env.Writable (f (env.place path))
      · exact ⟨.ok (), _, _, rfl, hwritable, rfl⟩
      · exact ⟨.error "", p, f, rfl, Or.inl ⟨rfl, Or.inr hwritable⟩⟩
  | codesign path =>
      by_cases hsigns : ∃ node content, f (env.place path) = some node ∧
          env.signs node.content content
      · rcases hsigns with ⟨node, content, hnode, hsigns⟩
        refine ⟨.ok ⟨some 0, []⟩, p, Function.update f (env.place path)
          (some { node with content := content }), rfl, ?_⟩
        rw [if_pos rfl]
        exact ⟨node, content, hnode, hsigns, rfl⟩
      · refine ⟨.ok ⟨some 1, []⟩, p, f, rfl, ?_⟩
        rw [if_neg (by decide)]
        refine ⟨⟨f (env.place path), (Function.update_eq_self _ _).symm⟩, Or.inr ?_⟩
        intro node content hnode hcontent
        exact hsigns ⟨node, content, hnode, hcontent⟩
  | setPermissions path mode =>
      cases hnode : f (env.place path) with
      | none => exact ⟨.error "", p, f, rfl, rfl, Or.inr hnode⟩
      | some node => exact ⟨.ok (), p, _, rfl, node, hnode, rfl⟩
  | status path args =>
      by_cases hnul : ∃ a ∈ args, 0 ∈ a
      · exact ⟨.error "", p, f, rfl, rfl, Or.inr (Or.inl hnul)⟩
      · by_cases hruns : ∃ place node, env.program path = some place ∧ f place = some node ∧
            env.Runnable node
        · refine ⟨.ok (some 0), _, f, rfl, env.child_refl f, ?_, hruns⟩
          intro a ha hzero
          exact hnul ⟨a, ha, hzero⟩
        · refine ⟨.error "", p, f, rfl, rfl, Or.inr (Or.inr ?_)⟩
          intro place node hplace hnode hrunnable
          exact hruns ⟨place, node, hplace, hnode, hrunnable⟩
  | removeFile path => exact ⟨.ok (), p, _, rfl, rfl⟩

omit [DecidableEq κ] in
/-- An entry that nothing keeps from being run: no call fails, nothing is in the way, and it
can be signed, loaded and given its arguments. -/
structure Smooth (env : Macos κ) (start : Files κ) : Prop where
  quiet : env.Quiet
  calls : ¬env.mayFail
  writes : ¬env.writeFails
  removes : ¬env.removeFails
  writable : env.Writable (start env.tmp)
  signs : ∃ content, env.signs env.call.bytes content
  loads : ∀ content, env.signs env.call.bytes content → env.loads content
  tempDir : env.proc.tempDir ≠ []
  nulFree : ∀ a ∈ env.call.trailing, 0 ∉ asBytes a

omit [DecidableEq κ] in
/-- Such a run ends with the exit code of the entry and without its temp file. -/
theorem Smooth.passes_on {result : Except Failure Int32} (h : Smooth env start)
    (hends : Ends env start result p f) :
    f env.tmp = none ∧ ∃ status : Option Int32, p.ran = some status ∧
      result = .ok (status.getD 1) := by
  cases result with
  | ok code =>
      rcases hends with ⟨status, hran, rfl, hgone⟩
      exact ⟨(hgone h.quiet).2.resolve_right h.removes, status, hran, rfl⟩
  | error failure =>
      exfalso
      have hcause := hends.2.1 h.quiet h.calls h.writes
      cases failure with
      | write e => exact hcause h.writable
      | spawnCodesign e => exact hcause
      | codesign output =>
          rcases h.signs with ⟨content, hsigns⟩
          exact hcause content hsigns
      | chmod e => exact hcause
      | exec e =>
          rcases hcause with htemp | ⟨a, ha, hnul⟩ | ⟨content, hsigns, hloads⟩
          · exact h.tempDir htemp
          · exact h.nulFree a ha hnul
          · exact hloads (h.loads content hsigns)

/-- The whole command then ends with an exit code. -/
theorem Smooth.exists_command_end {η τ : Type} {host : Host η} {lib : ArchiveLibrary τ}
    {archive : Path} {innerPath : String} {trailing : List String} {disk : Disk η}
    (h : Smooth env start) (hrun : run host lib archive innerPath trailing disk = .ok env.call) :
    ∃ code p f, Steps (binWorld env start)
      (binMacos host lib env.proc archive innerPath trailing disk) .fresh start
      (.done (.ok code)) p f := by
  have hcall : ∀ call, run host lib archive innerPath trailing disk = .ok call →
      env.call = call := by
    intro call hok
    rw [hrun] at hok
    exact Except.ok.inj hok
  have hkeeps : Keeps (binWorld env start)
      (CommandEnds env start (run host lib archive innerPath trailing disk))
      (binMacos host lib env.proc archive innerPath trailing disk) .fresh start :=
    binMacos_keeps hcall
  rcases hkeeps.exists_end fun p f c _ => binWorld_answers p f c with ⟨result, p, f, hsteps⟩
  have hends := hsteps.stopped hkeeps
  rw [hrun] at hends
  rcases hends with ⟨ended, rfl, hends⟩
  rcases (h.passes_on hends).2 with ⟨status, -, rfl⟩
  exact ⟨_, p, f, hsteps⟩

/-- The call that runs a program. -/
def Runs : SysCall → Prop
  | .status _ _ => True
  | _ => False

/-- Only running a program makes one have run. -/
theorem acts_ran {c : SysCall} {r : Answer c} {p' : Deeds} {f' : Files κ}
    (hacts : (binWorld env start).Acts p f c r p' f') (hother : ¬Runs c) (h : p.ran = none) :
    p'.ran = none := by
  cases c with
  | write path content =>
      cases r with
      | ok _ =>
          rcases hacts with ⟨rfl, -⟩
          exact h
      | error e =>
          rcases hacts with ⟨rfl, -⟩
          exact h
  | codesign path =>
      cases r <;>
      · rcases hacts with ⟨rfl, -⟩
        exact h
  | setPermissions path mode =>
      cases r <;>
      · rcases hacts with ⟨rfl, -⟩
        exact h
  | status path args => exact (hother trivial).elim
  | removeFile path =>
      cases r <;>
      · rcases hacts with ⟨rfl, -⟩
        exact h

/-- Such a process comes to run the entry. -/
theorem Smooth.exists_status (h : Smooth env start) : ∃ path args next p f,
    Reaches env start (.call (.status path args) next) p f := by
  have hkeeps : Keeps (binWorld env start) (Ends env start)
      (execTempMacos env.proc env.call.name env.call.bytes env.call.trailing) .fresh start :=
    execTempMacos_keeps
  rcases hkeeps.exists_end fun p f c _ => binWorld_answers p f c with ⟨result, p, f, hsteps⟩
  rcases (h.passes_on (hsteps.stopped hkeeps)).2 with ⟨status, hran, -⟩
  have hchanged : ¬p.ran = none := by
    rw [hran]
    exact Option.some_ne_none status
  rcases hsteps.exists_call (I := fun p => p.ran = none) acts_ran rfl hchanged with
    ⟨c, next, p₁, f₁, hbefore, hruns⟩
  cases c with
  | status path args => exact ⟨path, args, next, p₁, f₁, hbefore⟩
  | _ => exact hruns.elim

omit [DecidableEq κ] in
/-- What is in the way of the temp file keeps a process from running anything. -/
theorem eq_write_of_denied {result : Except Failure Int32} (hquiet : env.Quiet)
    (hdenied : ¬env.Writable (start env.tmp)) (hends : Ends env start result p f) :
    ∃ e, result = .error (.write e) ∧ f env.tmp = start env.tmp := by
  cases result with
  | ok code =>
      rcases hends with ⟨-, -, -, hgone⟩
      exact (hdenied (hgone hquiet).1).elim
  | error failure =>
      rcases hends.2.2 hquiet with ⟨hresidue, ⟨e, rfl⟩ | hwritable⟩
      · rcases hresidue with hsame | ⟨-, hwritable, -⟩
        · exact ⟨e, rfl, hsame⟩
        · exact (hdenied hwritable).elim
      · exact (hdenied hwritable).elim

end Runs

/-! ## Side by side -/

section SideBySide

variable {ι κ : Type} {env : ι → Macos κ} {start : Files κ}

/-- Processes that run side by side, each under a process id of its own, on a file system that
may not tell the letters of a name apart by their case.  Each allows the others, and what they
run, to do anything that leaves its temp file alone. -/
structure SideBySide (env : ι → Macos κ) : Prop where
  rely_iff : ∀ {i f g}, (env i).rely f g ↔ g (env i).tmp = f (env i).tmp
  names : ∀ {i j}, (env i).tmp = (env j).tmp →
    (tmpName (env i).proc.id (env i).call.name).toLower =
      (tmpName (env j).proc.id (env j).call.name).toLower
  pids : ∀ {i j}, (env i).proc.id = (env j).proc.id → i = j
  child : ∀ {i j}, i ≠ j → ∀ {f g}, (env i).child f g → (env j).rely f g

theorem SideBySide.quiet (h : SideBySide env) (i : ι) : (env i).Quiet where
  tmp_kept := fun hrely => h.rely_iff.mp hrely

/-- Different process ids have different temp files. -/
theorem SideBySide.tmp_ne (h : SideBySide env) {i j : ι} (hij : i ≠ j) :
    (env j).tmp ≠ (env i).tmp := fun hsame =>
  hij (h.pids (UInt32.toNat_inj.mp (eq_of_toLower_numbered (h.names hsame)))).symm

variable [DecidableEq κ]

/-- A process's temp file is all that it changes of what others rely on. -/
theorem SideBySide.rely_update (h : SideBySide env) {i j : ι} (hij : i ≠ j) (f : Files κ)
    (left : Option TempNode) : (env j).rely f (Function.update f (env i).tmp left) :=
  h.rely_iff.mpr (Function.update_of_ne (h.tmp_ne hij) _ _)

/-- What one process does to the files, every other one allows for. -/
theorem SideBySide.guarantees (h : SideBySide env) :
    Guarantees fun i => binWorld (env i) start := by
  intro i j hij p p' f f' c r hlegal hacts
  have hsame := (env j).rely_refl f
  cases c with
  | write path content =>
      rcases hlegal with ⟨rfl, rfl⟩
      cases r with
      | ok _ =>
          rcases hacts with ⟨-, -, rfl⟩
          exact h.rely_update hij f _
      | error e =>
          rcases hacts with ⟨-, ⟨rfl, -⟩ | ⟨-, -, part, -, rfl⟩⟩
          · exact hsame
          · exact h.rely_update hij f _
  | codesign path =>
      rcases hlegal with ⟨rfl, -⟩
      cases r with
      | ok output =>
          rcases hacts with ⟨-, hacts⟩
          split_ifs at hacts
          · rcases hacts with ⟨node, content, -, -, rfl⟩
            exact h.rely_update hij f _
          · rcases hacts with ⟨⟨left, rfl⟩, -⟩
            exact h.rely_update hij f left
      | error e =>
          rcases hacts with ⟨-, rfl, -⟩
          exact hsame
  | setPermissions path mode =>
      rcases hlegal with ⟨rfl, -⟩
      cases r with
      | ok _ =>
          rcases hacts with ⟨-, node, -, rfl⟩
          exact h.rely_update hij f _
      | error e =>
          rcases hacts with ⟨-, rfl, -⟩
          exact hsame
  | status path args =>
      cases r with
      | ok status =>
          rcases hacts with ⟨-, hchild, -⟩
          exact h.child hij hchild
      | error e =>
          rcases hacts with ⟨-, rfl, -⟩
          exact hsame
  | removeFile path =>
      rcases hlegal with ⟨rfl, -⟩
      cases r with
      | ok _ =>
          rcases hacts with ⟨-, rfl⟩
          exact h.rely_update hij f none
      | error e =>
          rcases hacts with ⟨-, rfl, -⟩
          exact hsame

/-- All processes before their first call. -/
def launched (env : ι → Macos κ) (start : Files κ) :
    Parties ι SysCall Answer Deeds (Files κ) (Except Failure Int32) where
  prog := fun i =>
    execTempMacos (env i).proc (env i).call.name (env i).call.bytes (env i).call.trailing
  own := fun _ => .fresh
  shared := start

theorem launched_allKeep (env : ι → Macos κ) (start : Files κ) :
    AllKeep (fun i => binWorld (env i) start) (fun i => Ends (env i) start)
      (launched env start) :=
  fun _ => execTempMacos_keeps

end SideBySide

/-! ## Two processes of one entry -/

/-- A process that found `bin/hello`, on a system where no call fails, every signed file can be
run, and what is run leaves the files alone. -/
def loneMacos (id : UInt32) : Macos Path where
  proc := ⟨asBytes "/tmp", id⟩
  call := ⟨"hello", asBytes "hello", ["-v"]⟩
  root := false
  newMode := 0o644
  place := fun path => path
  search := fun _ => none
  mayFail := False
  writeFails := False
  removeFails := False
  signs := fun content signed => signed = content ++ asBytes "signed"
  loads := fun _ => True
  child := fun f g => g = f
  child_refl := fun _ => rfl
  rely := fun f g => g (tmpPath ⟨asBytes "/tmp", id⟩ "hello") =
    f (tmpPath ⟨asBytes "/tmp", id⟩ "hello")
  rely_refl := fun _ => rfl
  rely_trans := fun h h' => h'.trans h

/-- Two of them. -/
def pairMacos (i : Bool) : Macos Path :=
  loneMacos (if i then 7 else 8)

/-- A system without files. -/
def noFiles : Files Path := fun _ => none

theorem run_hello : run (hostFor .macos) helloLibrary helloArchive "bin/hello" ["-v"] helloDisk =
    .ok (loneMacos 7).call :=
  run_eq_ok_iff_offers.mpr ⟨hello_offers .macos, by decide, rfl⟩

theorem pairMacos_sideBySide : SideBySide pairMacos where
  rely_iff := Iff.rfl
  names := by
    intro i j h
    have hname : asBytes (tmpName (pairMacos i).proc.id "hello") =
        asBytes (tmpName (pairMacos j).proc.id "hello") := by
      cases i <;> cases j <;> first | rfl | (exfalso; revert h; decide)
    exact congrArg String.toLower (asBytes_injective hname)
  pids := by decide
  child := by
    intro i j _ f g h
    cases h
    exact (pairMacos j).rely_refl f

theorem pairMacos_smooth (i : Bool) : Smooth (pairMacos i) noFiles where
  quiet := pairMacos_sideBySide.quiet i
  calls := fun h => h
  writes := fun h => h
  removes := fun h => h
  writable := by
    intro file hfile
    cases hfile
  signs := ⟨_, rfl⟩
  loads := fun _ _ => trivial
  tempDir := by cases i <;> decide
  nulFree := by cases i <;> decide

/-! ## Every run -/

section Theorems

variable {η τ κ : Type} [DecidableEq κ] {host : Host η} {lib : ArchiveLibrary τ} {archive : Path}
  {innerPath : String} {trailing : List String} {disk : Disk η} {env env' : Macos κ}
  {start f : Files κ} {p : Deeds}

/-- As long as others leave its temp file alone, what `--bin` runs on macOS is the entry the
archive offers, signed and sealed in its temp file, with the trailing arguments. -/
theorem bin_starts_entry_on_macos
    (hcall : run host lib archive innerPath trailing disk = .ok env.call) (hquiet : env.Quiet)
    {path : Path} {args : List Bytes}
    {next : Except String (Option Int32) → Running (Except Failure Int32)}
    (h : Reaches env start (.call (.status path args) next) p f) :
    args = trailing.map asBytes ∧ (env.proc.tempDir ≠ [] → env.program path = some env.tmp) ∧
      ∃ entry content, Offers host lib archive innerPath disk entry ∧ env.signs entry content ∧
        f env.tmp = some ⟨0o500, content⟩ := by
  rcases run_eq_ok_iff_offers.mp hcall with ⟨hoffers, -, htrailing⟩
  rcases h.legal execTempMacos_keeps with ⟨rfl, hargs, hsealed⟩
  rcases (hsealed hquiet).2 with ⟨content, hsigns, hstands⟩
  rw [htrailing] at hargs
  exact ⟨hargs, program_tmpPath, _, content, hoffers, hsigns, hstands⟩

/-- `bin/hello` comes to be run. -/
theorem bin_starts_entry_on_macos_hello : ∃ path args next p f,
    Reaches (pairMacos true) noFiles (.call (.status path args) next) p f ∧
    args = [asBytes "-v"] ∧
    ∃ entry content, Offers (hostFor .macos) helloLibrary helloArchive "bin/hello" helloDisk entry ∧
      (pairMacos true).signs entry content ∧
      f (pairMacos true).tmp = some ⟨0o500, content⟩ := by
  rcases (pairMacos_smooth true).exists_status with ⟨path, args, next, p, f, h⟩
  rcases bin_starts_entry_on_macos run_hello (pairMacos_smooth true).quiet h with
    ⟨hargs, -, hentry⟩
  exact ⟨path, args, next, p, f, h, hargs, hentry⟩

/-- However a run ends, it passes on the exit code of what it ran and has removed its temp
file, unless that failed; or it has run nothing, for a reason when no call failed, and what it
leaves under its temp path depends on how far it came. -/
theorem bin_ends_on_macos {result : Except Failure Int32}
    (h : Reaches env start (.done result) p f) :
    match result with
    | .ok code => ∃ status : Option Int32, p.ran = some status ∧ code = status.getD 1 ∧
        (env.Quiet → f env.tmp = none ∨ env.removeFails)
    | .error failure => p.ran = none ∧
        (env.Quiet → ¬env.mayFail → ¬env.writeFails → Cause env start failure) ∧
        (env.Quiet → Residue env start f failure) := by
  have hends : Ends env start result p f := h.stopped execTempMacos_keeps
  cases result with
  | ok code =>
      rcases hends with ⟨status, hran, hcode, hgone⟩
      exact ⟨status, hran, hcode, fun hquiet => (hgone hquiet).2⟩
  | error failure =>
      rcases hends with ⟨hran, hcause, hresidue⟩
      exact ⟨hran, hcause, fun hquiet => (hresidue hquiet).1⟩

/-- A run of `bin/hello` ends, with an exit code and without its temp file. -/
theorem bin_ends_on_macos_hello : ∃ code p f,
    Reaches (pairMacos true) noFiles (.done (.ok code)) p f ∧
    ∃ status : Option Int32, p.ran = some status ∧ code = status.getD 1 := by
  have hkeeps : Keeps (binWorld (pairMacos true) noFiles) (Ends (pairMacos true) noFiles)
      (execTempMacos (pairMacos true).proc (pairMacos true).call.name (pairMacos true).call.bytes
        (pairMacos true).call.trailing) .fresh noFiles := execTempMacos_keeps
  rcases hkeeps.exists_end fun p f c _ => binWorld_answers p f c with ⟨result, p, f, h⟩
  rcases (pairMacos_smooth true).passes_on (h.stopped hkeeps) with ⟨-, status, -, rfl⟩
  rcases bin_ends_on_macos h with ⟨status', hran, hcode, -⟩
  exact ⟨_, p, f, h, status', hran, hcode⟩

/-- Where nothing is in its way, a run can go on to its end from each of its points, and every
end passes on the exit code of the entry and leaves no temp file. -/
theorem bin_passes_on_macos {q : Running (Except Failure Int32)} (hsmooth : Smooth env start)
    (h : Reaches env start q p f) :
    (∃ result p' f', Steps (binWorld env start) q p f (.done result) p' f') ∧
      ∀ result p' f', Steps (binWorld env start) q p f (.done result) p' f' →
        f' env.tmp = none ∧ ∃ status : Option Int32, p'.ran = some status ∧
          result = .ok (status.getD 1) := by
  have hkeeps := execTempMacos_keeps.of_steps h
  constructor
  · exact hkeeps.exists_end fun p f c _ => binWorld_answers p f c
  · intro result p' f' hsteps
    exact hsmooth.passes_on (hsteps.stopped hkeeps)

/-- A run of `bin/hello` can end, and leaves no temp file. -/
theorem bin_passes_on_macos_hello : ∃ result p f,
    Reaches (pairMacos true) noFiles (.done result) p f ∧ f (pairMacos true).tmp = none := by
  have hall := bin_passes_on_macos (pairMacos_smooth true) (.refl ..)
  rcases hall.1 with ⟨result, p, f, h⟩
  exact ⟨result, p, f, h, (hall.2 result p f h).1⟩

/-- However the whole command ends, it passes on the exit code of the entry it found and ran;
or it tells why it has run nothing: what was wrong with the archive, and then it has left its
temp path alone, or what became of the temp file under that path. -/
theorem bin_tells_on_macos
    (hcall : ∀ call, run host lib archive innerPath trailing disk = .ok call → env.call = call)
    {result : Exec Error Int32}
    (h : Steps (binWorld env start) (binMacos host lib env.proc archive innerPath trailing disk)
      .fresh start (.done result) p f) :
    match result with
    | .ok code => Offers host lib archive innerPath disk env.call.bytes ∧
        ∃ status : Option Int32, p.ran = some status ∧ code = status.getD 1 ∧
          (env.Quiet → f env.tmp = none ∨ env.removeFails)
    | .error (.err lines) => p.ran = none ∧
        ((¬∃ entry, Offers host lib archive innerPath disk entry) ∧
            run host lib archive innerPath trailing disk = .error (.err lines) ∧
            (env.Quiet → f env.tmp = start env.tmp) ∨
          Offers host lib archive innerPath disk env.call.bytes ∧
            ∃ failure : Failure, lines = failure.report env.tmpPath ∧
              (env.Quiet → ¬env.mayFail → ¬env.writeFails → Cause env start failure) ∧
              (env.Quiet → Residue env start f failure))
    | .error _ => False := by
  have hends := h.stopped (binMacos_keeps hcall)
  have hclean : Clean (run host lib archive innerPath trailing disk) := run_clean ..
  rcases hclean with ⟨call, hrun⟩ | ⟨lines, hrun⟩
  · have hoffers : Offers host lib archive innerPath disk env.call.bytes := by
      rw [hcall call hrun]
      exact (run_eq_ok_iff_offers.mp hrun).1
    rw [hrun] at hends
    rcases hends with ⟨ended, rfl, hends⟩
    cases ended with
    | ok code =>
        rcases hends with ⟨status, hran, hcode, hgone⟩
        exact ⟨hoffers, status, hran, hcode, fun hquiet => (hgone hquiet).2⟩
    | error failure =>
        rcases hends with ⟨hran, hcause, hresidue⟩
        exact ⟨hran, Or.inr ⟨hoffers, failure, rfl, hcause, fun hquiet => (hresidue hquiet).1⟩⟩
  · rw [hrun] at hends
    rcases hends with ⟨rfl, hran, hkept⟩
    refine ⟨hran, Or.inl ⟨?_, hrun, hkept⟩⟩
    rintro ⟨entry, hoffers⟩
    have hok : run host lib archive innerPath trailing disk =
        .ok ⟨argvZero innerPath, entry, trailing⟩ :=
      run_eq_ok_iff_offers.mpr ⟨hoffers, rfl, rfl⟩
    rw [hrun] at hok
    cases hok

/-- `upxz --bin bin/hello` ends with an exit code, that of `hello`. -/
theorem bin_tells_on_macos_hello : ∃ code p f,
    Steps (binWorld (pairMacos true) noFiles) (binMacos (hostFor .macos) helloLibrary
      (pairMacos true).proc helloArchive "bin/hello" ["-v"] helloDisk) .fresh noFiles
      (.done (.ok code)) p f ∧
    ∃ status : Option Int32, p.ran = some status ∧ code = status.getD 1 := by
  have hcall : ∀ call, run (hostFor .macos) helloLibrary helloArchive "bin/hello" ["-v"] helloDisk =
      .ok call → (pairMacos true).call = call := by
    intro call hok
    rw [run_hello] at hok
    cases hok
    rfl
  rcases (pairMacos_smooth true).exists_command_end run_hello with ⟨code, p, f, h⟩
  rcases bin_tells_on_macos hcall h with ⟨-, status, hran, hcode, -⟩
  exact ⟨code, p, f, h, status, hran, hcode⟩

/-- A run that does not live to remove what it runs leaves the signed entry, sealed, and no
later run that finds it under its temp path runs anything, unless it runs as root: it ends, if
it ends, with the failure to write, and leaves the file as it is. -/
theorem bin_leftover_blocks (hquiet : env.Quiet) (hquiet' : env'.Quiet) (hroot : env'.root = false)
    (htmp : env'.tmp = env.tmp) {path : Path} {args : List Bytes}
    {next : Except String (Option Int32) → Running (Except Failure Int32)}
    (h : Reaches env start (.call (.status path args) next) p f) :
    ∃ content, env.signs env.call.bytes content ∧ f env.tmp = some ⟨0o500, content⟩ ∧
      (∀ path' args' next' p' f', ¬Reaches env' f (.call (.status path' args') next') p' f') ∧
      ∀ result p' f', Reaches env' f (.done result) p' f' →
        ∃ e, result = .error (.write e) ∧ f' env.tmp = some ⟨0o500, content⟩ := by
  rcases h.legal execTempMacos_keeps with ⟨-, -, hsealed⟩
  rcases (hsealed hquiet).2 with ⟨content, hsigns, hstands⟩
  have hdenied : ¬env'.Writable (f env'.tmp) := by
    have hmode : 0o500 &&& 0o200 = 0 := by decide
    intro hwritable
    rw [htmp] at hwritable
    rcases hwritable _ hstands with hisRoot | howner
    · rw [hroot] at hisRoot
      cases hisRoot
    · exact howner hmode
  refine ⟨content, hsigns, hstands, ?_, ?_⟩
  · intro path' args' next' p' f' h'
    rcases h'.legal execTempMacos_keeps with ⟨-, -, hlegal⟩
    exact hdenied (hlegal hquiet').1
  · intro result p' f' h'
    rw [← htmp] at hstands ⊢
    rw [← hstands]
    exact eq_write_of_denied hquiet' hdenied (h'.stopped execTempMacos_keeps)

/-- While `bin/hello` runs, a process that got the same process id and the same name could not
run anything. -/
theorem bin_leftover_blocks_hello : ∃ f, ∀ path args next p' f',
    ¬Reaches (pairMacos true) f (.call (.status path args) next) p' f' := by
  rcases (pairMacos_smooth true).exists_status with ⟨path, args, next, p, f, h⟩
  have hquiet := (pairMacos_smooth true).quiet
  rcases bin_leftover_blocks hquiet hquiet rfl rfl h with ⟨-, -, -, hnone, -⟩
  exact ⟨f, hnone⟩

end Theorems

/-! ## Every interleaving -/

section Interleavings

variable {ι κ : Type} {env : ι → Macos κ} {start : Files κ} [DecidableEq κ] [DecidableEq ι]

/-- However their calls are interleaved, each process runs its own entry, signed and sealed,
with its own arguments; each that ends, ends as if it had been alone; and none keeps another
from coming to its end. -/
theorem bins_start_own (hside : SideBySide env)
    {now : Parties ι SysCall Answer Deeds (Files κ) (Except Failure Int32)}
    (hrun : Interleaves (fun i => binWorld (env i) start) (launched env start) now) (i : ι) :
    (∀ path args next, now.prog i = .call (.status path args) next →
      path = (env i).tmpPath ∧ args = (env i).call.trailing.map asBytes ∧
        ((env i).proc.tempDir ≠ [] → (env i).program path = some (env i).tmp) ∧
        ∃ content, (env i).signs (env i).call.bytes content ∧
          now.shared (env i).tmp = some ⟨0o500, content⟩) ∧
    (∀ result, now.prog i = .done result → Ends (env i) start result (now.own i) now.shared) ∧
    ∃ last result, Interleaves (fun i => binWorld (env i) start) now last ∧
      last.prog i = .done result := by
  refine ⟨?_, ?_, ?_⟩
  · intro path args next hturn
    rcases hrun.legal hside.guarantees (launched_allKeep env start) hturn with
      ⟨rfl, hargs, hsealed⟩
    exact ⟨rfl, hargs, program_tmpPath, (hsealed (hside.quiet i)).2⟩
  · intro result hdone
    exact hrun.stopped hside.guarantees (launched_allKeep env start) hdone
  · have hkeep := hrun.keeps hside.guarantees (launched_allKeep env start)
    exact hkeep.exists_end hside.guarantees i fun p f c _ => binWorld_answers p f c

/-- Either process can go on to its end from the start. -/
theorem bins_start_own_pair : ∃ last result,
    Interleaves (fun i => binWorld (pairMacos i) noFiles) (launched pairMacos noFiles) last ∧
      last.prog true = .done result :=
  (bins_start_own pairMacos_sideBySide (.refl (launched pairMacos noFiles)) true).2.2

end Interleavings

end Bin
end Upxz
