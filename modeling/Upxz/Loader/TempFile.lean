import Mathlib.Logic.Function.Basic
import Upxz.Machine.ShortWrites
import Upxz.Loader.Parse
import Upxz.Loader.TempPath

/-!
# Loader - Temp files over repeated runs

The macOS loader writes the restored binary to `/tmp/upxz-app-<pid>`, has it
signed, and makes it `0500`.  Nothing removes the file, and process ids come
back.  The open flags are spelled as on Linux; Darwin reads the same bits
differently.  The definitions follow steps 6 to 9 of `loader/src/main.rs`; one
run is one step of a machine whose state is the temp files left behind.

Main results:

- Theorem `runCorrect_iff`: one run opens its file and has the right content
  signed exactly when what was left under its path can be reused.
- Theorem `all_runs_correct_iff`: a sequence of runs is correct exactly when this
  holds before every run.
- Theorem `afterRuns_of_ne`: runs under other process ids do not touch a temp file.
- Theorem `sealed_leftover_stays`: the file of a completed run blocks its path
  for every later run of the same user.
-/

namespace Upxz
namespace Loader

open Machine Format

/-! ## Darwin's open -/

/-- `O_WRONLY`, in the loader and on Darwin. -/
def oWronly : Nat := 0x1

/-- The loader's `O_CREAT`; Darwin reads it as `O_ASYNC`. -/
def oCreat : Nat := 0o100

/-- The loader's `O_TRUNC`; Darwin reads it as `O_CREAT`. -/
def oTrunc : Nat := 0o1000

/-- Darwin's mask of the access mode. -/
def darwinAccmode : Nat := 0x3

/-- Darwin's `O_CREAT`. -/
def darwinCreat : Nat := 0x200

/-- Darwin's `O_TRUNC`. -/
def darwinTrunc : Nat := 0x400

/-- `ENOENT`. -/
def enoent : Errno := 2

/-- `EACCES`. -/
def eacces : Errno := 13

/-- A file under a temp path, owned by the user who runs the loader. -/
structure TempNode where
  mode : Nat
  content : Bytes
deriving DecidableEq, Repr

/-- Whether the owner may write the file. -/
def TempNode.OwnerWritable (node : TempNode) : Prop :=
  node.mode &&& 0o200 ≠ 0

instance (node : TempNode) : Decidable node.OwnerWritable :=
  inferInstanceAs (Decidable (_ ≠ _))

/-- `open` on Darwin by the owner of the file, or by root. -/
def darwinOpen (root : Bool) (flags mode : Nat) (node : Option TempNode) :
    Except Errno TempNode :=
  match node with
  | none => if flags &&& darwinCreat ≠ 0 then .ok ⟨mode, []⟩ else .error enoent
  | some file =>
      if flags &&& darwinAccmode ≠ 0 ∧ root = false ∧ ¬file.OwnerWritable then .error eacces
      else if flags &&& darwinTrunc ≠ 0 then .ok ⟨file.mode, []⟩
      else .ok file

/-- `O_WRONLY | O_CREAT | O_TRUNC` as the loader spells it. -/
def openFlags : Nat := oWronly ||| oCreat ||| oTrunc

/-! ## One run -/

/-- How a run goes on once its temp file is open. -/
inductive Fate where
  | killedInWrites (calls : Nat)
  | writeFails
  | killedBeforeChmod (signed : Bytes)
  | execFails (signed : Bytes)
  | completes (signed : Bytes)
deriving DecidableEq, Repr

/-- Whether the run lives to call `codesign_adhoc`. -/
def Fate.signs : Fate → Bool
  | .killedInWrites _ => false
  | .writeFails => false
  | .killedBeforeChmod _ => true
  | .execFails _ => true
  | .completes _ => true

/-- One run of the loader on a valid container: its process id, what the payload
decompresses to, and how its writes and its end go. -/
structure Run where
  pid : Nat
  pid_lt : pid < 2 ^ 64
  original : Bytes
  write : WriteCalls
  short : write.Short
  fate : Fate

/-- The temp path of a run. -/
def Run.path (run : Run) : Path :=
  tmpPath run.pid run.pid_lt

/-- What can be seen of a run: it gave up on the temp file, it ended before
signing, or it had the given content signed. -/
inductive Trace where
  | cannotOpen (errno : Errno) (abort : Abort)
  | stopped
  | signed (content : Bytes)
deriving DecidableEq, Repr

/-- The loader's report when the temp file cannot be opened. -/
def tempFileAbort : Abort where
  message := "upxz-loader: cannot create temp file for restored binary\n"
  exitCode := exitIo

/-- What `codesign` and the rest of the run leave of the file. -/
def leave (fate : Fate) (file : TempNode) : Option TempNode :=
  match fate with
  | .killedInWrites _ => some file
  | .writeFails => none
  | .killedBeforeChmod signed => some { file with content := signed }
  | .execFails _ => none
  | .completes signed => some ⟨0o500, signed⟩

/-- Steps 6 to 9: open the temp file, fill it, have it signed, seal it, exec it.
A failed write or exec unlinks it. -/
def runOnce (root : Bool) (node : Option TempNode) (run : Run) : Trace × Option TempNode :=
  match darwinOpen root openFlags 0o600 node with
  | .error errno => (.cannotOpen errno tempFileAbort, node)
  | .ok file =>
      match run.fate with
      | .killedInWrites calls =>
          let result := writeLoop .giveUp run.write run.original calls 0 0 file.content
          (.stopped, leave run.fate { file with content := result.content })
      | .writeFails => (.stopped, leave run.fate file)
      | fate =>
          match writeLoop .giveUp run.write run.original run.original.length 0 0 file.content with
          | .done content => (.signed content, leave fate { file with content := content })
          | .failed _ _ => (.stopped, none)
          | .running content => (.stopped, some { file with content := content })

/-- The run opened its file, and what it had signed, if it came to that, is its
own original. -/
def RunCorrect (run : Run) (trace : Trace) : Prop :=
  match trace with
  | .cannotOpen _ _ => False
  | .stopped => True
  | .signed content => content = run.original

/-- What was left under the path can be reused: nothing, or a file the user may
write that is no longer than the new original, should the run live to sign it. -/
def Reusable (root : Bool) (run : Run) (node : Option TempNode) : Prop :=
  ∀ file ∈ node, (root = true ∨ file.OwnerWritable) ∧
    (run.fate.signs = true → file.content.length ≤ run.original.length)

theorem openFlags_read : openFlags &&& darwinCreat ≠ 0 ∧ openFlags &&& darwinAccmode ≠ 0 ∧
    ¬openFlags &&& darwinTrunc ≠ 0 := by
  decide

/-- Darwin creates a missing temp file. -/
theorem darwinOpen_none (root : Bool) (mode : Nat) :
    darwinOpen root openFlags mode none = .ok ⟨mode, []⟩ := by
  rw [darwinOpen, if_pos openFlags_read.1]

/-- Darwin opens a writable leftover as it is: nothing is truncated. -/
theorem darwinOpen_some {root : Bool} {mode : Nat} {file : TempNode}
    (h : root = true ∨ file.OwnerWritable) :
    darwinOpen root openFlags mode (some file) = .ok file := by
  have hdenied : ¬(openFlags &&& darwinAccmode ≠ 0 ∧ root = false ∧ ¬file.OwnerWritable) := by
    intro hdenied
    rcases h with hroot | hwrite
    · rw [hroot] at hdenied
      exact Bool.noConfusion hdenied.2.1
    · exact hdenied.2.2 hwrite
  simp only [darwinOpen]
  rw [if_neg hdenied, if_neg openFlags_read.2.2]

/-- A leftover the user may not write is not opened. -/
theorem darwinOpen_denied {root : Bool} {mode : Nat} {file : TempNode}
    (h : ¬(root = true ∨ file.OwnerWritable)) :
    darwinOpen root openFlags mode (some file) = .error eacces := by
  rw [not_or, Bool.not_eq_true] at h
  exact if_pos ⟨openFlags_read.2.1, h⟩

/-- What a run does once its file is open. -/
theorem runOnce_of_open {root : Bool} {node : Option TempNode} {run : Run} {file : TempNode}
    (hopen : darwinOpen root openFlags 0o600 node = .ok file) :
    (runOnce root node run).1 =
      if run.fate.signs = true then
        .signed (overlay run.original file.content run.original.length)
      else .stopped := by
  have hloop : writeLoop .giveUp run.write run.original run.original.length 0 0 file.content =
      .done (overlay run.original file.content run.original.length) := by
    have hdone : writeLoop .giveUp run.write run.original run.original.length 0 0
        (overlay run.original file.content 0) =
          .done (overlay run.original file.content run.original.length) :=
      writeLoop_done run.short run.original file.content (Nat.zero_le _) (Nat.sub_le _ _)
    rwa [overlay_zero] at hdone
  unfold runOnce
  rw [hopen]
  cases hfate : run.fate with
  | killedInWrites calls => rfl
  | writeFails => rfl
  | killedBeforeChmod signed =>
      simp only [hloop]
      rfl
  | execFails signed =>
      simp only [hloop]
      rfl
  | completes signed =>
      simp only [hloop]
      rfl

/-- One run is correct exactly when what was left under its path can be reused. -/
theorem runCorrect_iff (root : Bool) (node : Option TempNode) (run : Run) :
    RunCorrect run (runOnce root node run).1 ↔ Reusable root run node := by
  cases node with
  | none =>
      rw [runOnce_of_open (darwinOpen_none root 0o600)]
      have hfresh : overlay run.original [] run.original.length = run.original :=
        overlay_length_eq_iff.mpr (Nat.zero_le _)
      cases run.fate.signs <;> simp [RunCorrect, Reusable, hfresh]
  | some file =>
      by_cases hwrite : root = true ∨ file.OwnerWritable
      · rw [runOnce_of_open (darwinOpen_some hwrite)]
        cases hsigns : run.fate.signs with
        | false => simp [RunCorrect, Reusable, hsigns, hwrite]
        | true =>
            rw [if_pos rfl]
            simp only [RunCorrect, Reusable, Option.mem_some_iff, forall_eq', hwrite, hsigns,
              true_and, forall_const]
            exact overlay_length_eq_iff
      · have hdenied : (runOnce root (some file) run).1 = .cannotOpen eacces tempFileAbort := by
          rw [runOnce, darwinOpen_denied hwrite]
        rw [hdenied]
        simp [RunCorrect, Reusable, hwrite]

/-! ## Sequences of runs -/

/-- The temp files left behind. -/
abbrev Tmp := Path → Option TempNode

/-- No temp file yet. -/
def emptyTmp : Tmp := fun _ => none

/-- The temp files after one run. -/
def afterRun (root : Bool) (tmp : Tmp) (run : Run) : Tmp :=
  Function.update tmp run.path (runOnce root (tmp run.path) run).2

/-- The temp files after a sequence of runs. -/
def afterRuns (root : Bool) (tmp : Tmp) (runs : List Run) : Tmp :=
  runs.foldl (afterRun root) tmp

/-- Every run of the sequence is correct. -/
def AllCorrect (root : Bool) : Tmp → List Run → Prop
  | _, [] => True
  | tmp, run :: runs =>
      RunCorrect run (runOnce root (tmp run.path) run).1 ∧
        AllCorrect root (afterRun root tmp run) runs

/-- Before every run of the sequence, what was left under its path can be reused. -/
def AllReusable (root : Bool) : Tmp → List Run → Prop
  | _, [] => True
  | tmp, run :: runs =>
      Reusable root run (tmp run.path) ∧ AllReusable root (afterRun root tmp run) runs

/-- A sequence of runs is correct exactly when, before every run, what was left
under its path can be reused. -/
theorem allCorrect_iff (root : Bool) (tmp : Tmp) (runs : List Run) :
    AllCorrect root tmp runs ↔ AllReusable root tmp runs := by
  induction runs generalizing tmp with
  | nil => exact Iff.rfl
  | cons run runs ih =>
      simp only [AllCorrect, AllReusable]
      rw [runCorrect_iff, ih]

/-- The mode of a file that runs have left: sealed, or as it was created. -/
def TempNode.LeftByRun (node : TempNode) : Prop :=
  node.mode = 0o600 ∨ node.mode = 0o500

theorem leave_mode {file : TempNode} (h : file.LeftByRun) (fate : Fate) (content : Bytes) :
    ∀ left ∈ leave fate { file with content := content }, left.LeftByRun := by
  intro left hleft
  cases fate with
  | killedInWrites calls =>
      cases hleft
      exact h
  | writeFails => cases hleft
  | killedBeforeChmod signed =>
      cases hleft
      exact h
  | execFails signed => cases hleft
  | completes signed =>
      cases hleft
      exact Or.inr rfl

theorem darwinOpen_mode {root : Bool} {node : Option TempNode} {file : TempNode}
    (h : ∀ old ∈ node, old.LeftByRun) (hopen : darwinOpen root openFlags 0o600 node = .ok file) :
    file.LeftByRun := by
  cases node with
  | none =>
      rw [darwinOpen_none] at hopen
      cases hopen
      exact Or.inl rfl
  | some old =>
      by_cases hwrite : root = true ∨ old.OwnerWritable
      · rw [darwinOpen_some hwrite] at hopen
        rw [← Except.ok.inj hopen]
        exact h old rfl
      · rw [darwinOpen_denied hwrite] at hopen
        cases hopen

/-- What one run leaves under its path is sealed or still in its first mode. -/
theorem runOnce_mode {root : Bool} {node : Option TempNode} {run : Run}
    (h : ∀ old ∈ node, old.LeftByRun) :
    ∀ left ∈ (runOnce root node run).2, left.LeftByRun := by
  intro left hleft
  unfold runOnce at hleft
  split at hleft
  · exact h left hleft
  · rename_i opened hopen
    have hopened := darwinOpen_mode h hopen
    split at hleft
    · exact leave_mode hopened _ _ left hleft
    · exact leave_mode hopened _ _ left hleft
    · split at hleft
      · exact leave_mode hopened _ _ left hleft
      · cases hleft
      · cases hleft
        exact hopened

/-- After any sequence of runs a temp file is sealed or still in its first mode. -/
theorem afterRuns_mode (root : Bool) (runs : List Run) {tmp : Tmp}
    (h : ∀ path, ∀ file ∈ tmp path, file.LeftByRun) :
    ∀ path, ∀ file ∈ afterRuns root tmp runs path, file.LeftByRun := by
  induction runs generalizing tmp with
  | nil => exact h
  | cons run runs ih =>
      apply ih
      intro path file hfile
      by_cases hpath : path = run.path
      · rw [hpath, afterRun, Function.update_self] at hfile
        exact runOnce_mode (h run.path) file hfile
      · rw [afterRun, Function.update_of_ne hpath] at hfile
        exact h path file hfile

/-- A run leaves the temp files of other process ids alone. -/
theorem afterRun_of_ne {root : Bool} {tmp : Tmp} {run : Run} {pid : Nat} (hpid : pid < 2 ^ 64)
    (hne : run.pid ≠ pid) : afterRun root tmp run (tmpPath pid hpid) = tmp (tmpPath pid hpid) := by
  apply Function.update_of_ne
  intro hsame
  exact hne ((tmpPath_inj run.pid_lt hpid).mp hsame.symm)

/-- Runs under other process ids, in whatever order, do not touch the temp file of a
process. -/
theorem afterRuns_of_ne {root : Bool} {tmp : Tmp} {pid : Nat} (hpid : pid < 2 ^ 64)
    (runs : List Run) (hne : ∀ run ∈ runs, run.pid ≠ pid) :
    afterRuns root tmp runs (tmpPath pid hpid) = tmp (tmpPath pid hpid) := by
  induction runs generalizing tmp with
  | nil => rfl
  | cons run runs ih =>
      rcases List.forall_mem_cons.mp hne with ⟨hrun, hruns⟩
      have hrest := @ih (afterRun root tmp run) hruns
      rw [afterRun_of_ne hpid hrun] at hrest
      exact hrest

/-- A sealed file stays in place through every later run of a user other than
root: each run under its path is refused. -/
theorem sealed_leftover_stays {tmp : Tmp} {path : Path} {content : Bytes} (runs : List Run)
    (hsealed : tmp path = some ⟨0o500, content⟩) :
    afterRuns false tmp runs path = some ⟨0o500, content⟩ := by
  induction runs generalizing tmp with
  | nil => exact hsealed
  | cons run runs ih =>
      apply ih
      by_cases hpath : path = run.path
      · have hdenied : ¬((false : Bool) = true ∨ (⟨0o500, content⟩ : TempNode).OwnerWritable) := by
          simp [TempNode.OwnerWritable]
        rw [hpath] at hsealed ⊢
        rw [afterRun, Function.update_self, hsealed, runOnce, darwinOpen_denied hdenied]
      · rw [afterRun, Function.update_of_ne hpath, hsealed]

/-- Starting from an empty `/tmp`, every run opens its temp file and has exactly
its own original signed if and only if every run finds under its path nothing, or a
file that its user may write and that is no longer than the original it signs. -/
theorem all_runs_correct_iff (root : Bool) (runs : List Run) :
    AllCorrect root emptyTmp runs ↔ AllReusable root emptyTmp runs :=
  allCorrect_iff root emptyTmp runs

/-- A run under process id 7 whose writes are taken whole. -/
def runSeven (original : Bytes) (fate : Fate) : Run where
  pid := 7
  pid_lt := by decide
  original := original
  write := fun _ offered => .ok offered
  short := fun _ offered h => ⟨offered, rfl, h, Nat.le_refl _⟩
  fate := fate

/-- A completed run makes the next run under its process id fail; a killed run makes
a shorter next original carry its tail into the signature. -/
theorem recurring_pid_goes_wrong :
    ¬AllCorrect false emptyTmp
        [runSeven (asBytes "#!/bin/sh") (.completes (asBytes "signed")),
          runSeven (asBytes "#!/bin/sh") (.completes (asBytes "signed"))] ∧
      ¬AllCorrect false emptyTmp
        [runSeven (asBytes "#!/bin/sh -e") (.killedInWrites 1),
          runSeven (asBytes "#!/bin/sh") (.completes (asBytes "signed"))] := by
  have hdenied : (runOnce false (some ⟨0o500, asBytes "signed"⟩)
      (runSeven (asBytes "#!/bin/sh") (.completes (asBytes "signed")))).1 =
        .cannotOpen eacces tempFileAbort := by
    decide
  have htail : (runOnce false (some ⟨0o600, asBytes "#!/bin/sh -e"⟩)
      (runSeven (asBytes "#!/bin/sh") (.completes (asBytes "signed")))).1 =
        .signed (asBytes "#!/bin/sh -e") := by
    decide
  constructor
  · intro hall
    have hsecond := hall.2.1
    rw [show afterRun false emptyTmp
        (runSeven (asBytes "#!/bin/sh") (.completes (asBytes "signed")))
          (runSeven (asBytes "#!/bin/sh") (.completes (asBytes "signed"))).path =
            some ⟨0o500, asBytes "signed"⟩ by decide, hdenied] at hsecond
    exact hsecond
  · intro hall
    have hsecond := hall.2.1
    rw [show afterRun false emptyTmp
        (runSeven (asBytes "#!/bin/sh -e") (.killedInWrites 1))
          (runSeven (asBytes "#!/bin/sh") (.completes (asBytes "signed"))).path =
            some ⟨0o600, asBytes "#!/bin/sh -e"⟩ by decide, htail] at hsecond
    have hne : asBytes "#!/bin/sh -e" ≠ asBytes "#!/bin/sh" := by decide
    exact hne hsecond

end Loader
end Upxz
