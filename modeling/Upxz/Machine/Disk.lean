import Mathlib.Logic.Function.Basic
import Upxz.Machine.Program
import Upxz.Machine.UnixPath

/-!
# Machine - A disk and the calls that read and change it

A disk maps places to what they hold.  A path leads to a place, links followed,
and several paths may lead to one place; a place is known before anything stands
there, so creating a file does not change where paths lead.  Every call may fail
for reasons a disk does not show (permissions, a missing parent directory, a full
device): those are the fault functions of an `Os`, which may depend on the disk.

Main results:

- Theorem `create_cases`: opening for writing refuses, or leaves an empty file.
- Theorem `writeAll_put`: writes that succeed append to the open file.
- Theorem `setPermissions_put`: changing the mode keeps the content.
- Theorem `writeFile_of_calm`: where no call fails, writing a file leaves it there with its
  mode kept.
- Theorem `writeAll_part`: a write that fails leaves a part of what it had to write.
- Theorem `CutShort.at_place`: a run in which a write fails leaves at each place what was
  there, or a part of what it leaves there when no write fails.
-/

namespace Machine

/-! ## Disks -/

/-- What a place on a disk holds. -/
inductive Node where
  | file (content : Bytes) (mode : Nat)
  | directory
deriving DecidableEq, Repr

/-- What every place holds, if anything. -/
abbrev Disk (κ : Type) := κ → Option Node

/-- Put a file at a place. -/
def Disk.put {κ : Type} [DecidableEq κ] (disk : Disk κ) (place : κ) (content : Bytes)
    (mode : Nat) : Disk κ :=
  Function.update disk place (some (.file content mode))

section Put

variable {κ : Type} [DecidableEq κ]

@[simp]
theorem Disk.put_same (disk : Disk κ) (place : κ) (content : Bytes) (mode : Nat) :
    disk.put place content mode place = some (.file content mode) :=
  Function.update_self ..

@[simp]
theorem Disk.put_of_ne {disk : Disk κ} {place other : κ} (content : Bytes) (mode : Nat)
    (h : other ≠ place) : disk.put place content mode other = disk other :=
  Function.update_of_ne h ..

@[simp]
theorem Disk.put_put (disk : Disk κ) (place : κ) (content content' : Bytes) (mode mode' : Nat) :
    (disk.put place content mode).put place content' mode' = disk.put place content' mode' :=
  Function.update_idem ..

end Put

/-! ## System calls -/

/-- A system: where paths lead, the mode of a new file, and the faults its calls
can run into.  A write that fails may have written some of its bytes. -/
structure Os (κ : Type) where
  resolve : Path → κ
  newMode : Nat
  statFault : Disk κ → Path → Option String
  openFault : Disk κ → Path → Option String
  readFault : Disk κ → κ → Option String
  createFault : Disk κ → Path → Option String
  writeFault : Disk κ → κ → Bytes → Option (Nat × String)
  chmodFault : Disk κ → Path → Option String

/-- `ENOENT` in words. -/
def noSuchFile : String := "No such file or directory (os error 2)"

/-- `EISDIR` in words. -/
def isADirectory : String := "Is a directory (os error 21)"

/-- `EBADF` in words. -/
def badDescriptor : String := "Bad file descriptor (os error 9)"

/-- No call fails while it writes. -/
def Os.WritesSucceed {κ : Type} (os : Os κ) : Prop :=
  ∀ disk handle chunk, os.writeFault disk handle chunk = none

/-- No call to change a mode fails on a path that leads somewhere. -/
def Os.ChmodSucceeds {κ : Type} (os : Os κ) : Prop :=
  ∀ disk path, os.chmodFault disk path = none

/-- `stat` finds what stands where a path leads. -/
def Os.StatSucceeds {κ : Type} (os : Os κ) : Prop :=
  ∀ disk path, os.statFault disk path = none

section Calls

variable {κ : Type} (os : Os κ)

/-- `fs::metadata`. -/
def metadata (path : Path) (disk : Disk κ) : Except String Node :=
  match os.statFault disk path with
  | some e => .error e
  | none =>
      match disk (os.resolve path) with
      | some node => .ok node
      | none => .error noSuchFile

/-- `Metadata::is_file`. -/
def Node.isFile : Node → Bool
  | .file _ _ => true
  | .directory => false

/-- `Metadata::len`; nothing asks a directory for it. -/
def Node.len : Node → Nat
  | .file content _ => content.length
  | .directory => 0

/-- `Path::exists`. -/
def pathExists (path : Path) (disk : Disk κ) : Bool :=
  match metadata os path disk with
  | .ok _ => true
  | .error _ => false

/-- A path exists exactly when something stands where it leads. -/
theorem pathExists_iff {os : Os κ} (hstat : os.StatSucceeds) (path : Path) (disk : Disk κ) :
    pathExists os path disk = true ↔ disk (os.resolve path) ≠ none := by
  unfold pathExists metadata
  rw [hstat]
  cases disk (os.resolve path) with
  | none => simp
  | some node => simp

/-- `Path::is_dir`. -/
def pathIsDir (path : Path) (disk : Disk κ) : Bool :=
  match metadata os path disk with
  | .ok node => !node.isFile
  | .error _ => false

/-- `File::open`. -/
def openFile (path : Path) (disk : Disk κ) : Except String κ :=
  match os.openFault disk path with
  | some e => .error e
  | none =>
      match disk (os.resolve path) with
      | some _ => .ok (os.resolve path)
      | none => .error noSuchFile

/-- `read_to_end`, from the start of the file. -/
def readToEnd (handle : κ) (disk : Disk κ) : Except String Bytes :=
  match os.readFault disk handle with
  | some e => .error e
  | none =>
      match disk handle with
      | some (.file content _) => .ok content
      | some .directory => .error isADirectory
      | none => .error badDescriptor

/-- What opening and reading returns is the content of the file the path leads to. -/
theorem eq_file_of_readToEnd {path : Path} {handle : κ} {disk : Disk κ} {content : Bytes}
    (hopen : openFile os path disk = .ok handle)
    (hread : readToEnd os handle disk = .ok content) :
    ∃ mode, disk (os.resolve path) = some (.file content mode) := by
  have hhandle : os.resolve path = handle := by
    unfold openFile at hopen
    split at hopen
    · cases hopen
    · split at hopen
      · exact Except.ok.inj hopen
      · cases hopen
  rw [hhandle]
  unfold readToEnd at hread
  split at hread
  · cases hread
  · split at hread
    · rename_i stored mode hnode
      cases hread
      exact ⟨mode, hnode⟩
    · cases hread
    · cases hread

variable [DecidableEq κ]

/-- `File::create`: a new file, or the old one emptied with its mode kept. -/
def create (path : Path) : Program (Disk κ) String κ := fun disk =>
  match os.createFault disk path with
  | some e => (.error (.err e), disk)
  | none =>
      match disk (os.resolve path) with
      | some .directory => (.error (.err isADirectory), disk)
      | some (.file _ mode) => (.ok (os.resolve path), disk.put (os.resolve path) [] mode)
      | none => (.ok (os.resolve path), disk.put (os.resolve path) [] os.newMode)

/-- `write_all` at the end of the open file. -/
def writeAll (handle : κ) (chunk : Bytes) : Program (Disk κ) String Unit := fun disk =>
  match disk handle with
  | some (.file content mode) =>
      match os.writeFault disk handle chunk with
      | none => (.ok (), disk.put handle (content ++ chunk) mode)
      | some (written, e) =>
          (.error (.err e), disk.put handle (content ++ chunk.take written) mode)
  | _ => (.error (.err badDescriptor), disk)

/-- `fs::set_permissions`; the mode of a directory is not kept track of. -/
def setPermissions (path : Path) (mode : Nat) : Program (Disk κ) String Unit := fun disk =>
  match os.chmodFault disk path with
  | some e => (.error (.err e), disk)
  | none =>
      match disk (os.resolve path) with
      | some (.file content _) => (.ok (), disk.put (os.resolve path) content mode)
      | some .directory => (.ok (), disk)
      | none => (.error (.err noSuchFile), disk)

/-- `fs::write`. -/
def writeFile (path : Path) (content : Bytes) : Program (Disk κ) String Unit := do
  let handle ← create os path
  writeAll os handle content

/-! ## What the calls do -/

/-- Opening for writing refuses, or leaves an empty file where the path leads. -/
theorem create_cases (path : Path) (disk : Disk κ) :
    Program.Refused disk ((create os path).run disk) ∨
      disk (os.resolve path) ≠ some .directory ∧
        ∃ mode, (create os path).run disk =
          (.ok (os.resolve path), disk.put (os.resolve path) [] mode) := by
  simp only [create, Program.run]
  cases os.createFault disk path with
  | some e => exact Or.inl ⟨_, rfl⟩
  | none =>
      cases hnode : disk (os.resolve path) with
      | none => exact Or.inr ⟨by simp, os.newMode, rfl⟩
      | some node =>
          cases node with
          | directory => exact Or.inl ⟨_, rfl⟩
          | file content mode => exact Or.inr ⟨by simp, mode, rfl⟩

/-- Changing the mode of a file keeps its content; it fails only on a fault. -/
theorem setPermissions_put (path : Path) (disk : Disk κ) (content : Bytes) (mode mode' : Nat) :
    (setPermissions os path mode').run (disk.put (os.resolve path) content mode) =
        (.ok (), disk.put (os.resolve path) content mode') ∨
      ¬os.ChmodSucceeds ∧ Program.Refused (disk.put (os.resolve path) content mode)
        ((setPermissions os path mode').run (disk.put (os.resolve path) content mode)) := by
  simp only [setPermissions, Program.run]
  cases hfault : os.chmodFault (disk.put (os.resolve path) content mode) path with
  | some e =>
      refine Or.inr ⟨fun hchmod => ?_, ⟨_, rfl⟩⟩
      rw [hchmod] at hfault
      cases hfault
  | none =>
      left
      simp only [Disk.put_same, Disk.put_put]

variable {os}

/-- A write that succeeds appends to the open file. -/
theorem writeAll_put (hwrites : os.WritesSucceed) (disk : Disk κ) (handle : κ)
    (content chunk : Bytes) (mode : Nat) :
    (writeAll os handle chunk).run (disk.put handle content mode) =
      (.ok (), disk.put handle (content ++ chunk) mode) := by
  simp only [writeAll, Program.run, Disk.put_same, hwrites _ _ _, Disk.put_put]

/-- Writing a whole file refuses, or leaves that file where the path leads. -/
theorem writeFile_cases (hwrites : os.WritesSucceed) (path : Path) (content : Bytes)
    (disk : Disk κ) :
    Program.Refused disk ((writeFile os path content).run disk) ∨
      disk (os.resolve path) ≠ some .directory ∧
        ∃ mode, (writeFile os path content).run disk =
          (.ok (), disk.put (os.resolve path) content mode) := by
  rcases create_cases os path disk with hrefused | ⟨hdir, mode, hcreate⟩
  · exact Or.inl hrefused.bind
  · refine Or.inr ⟨hdir, mode, ?_⟩
    rw [writeFile, Program.run_bind_of_ok hcreate, writeAll_put hwrites, List.nil_append]

/-! ## Systems on which no call fails -/

/-- No call fails on a path that leads to what it asks for. -/
structure Os.Calm (os : Os κ) : Prop where
  stat : os.StatSucceeds
  opens : ∀ disk path, os.openFault disk path = none
  reads : ∀ disk handle, os.readFault disk handle = none
  creates : ∀ disk path, os.createFault disk path = none
  writes : os.WritesSucceed
  chmods : os.ChmodSucceeds

/-- The mode of the file that `File::create` leaves. -/
def Os.modeAt (os : Os κ) (path : Path) (disk : Disk κ) : Nat :=
  match disk (os.resolve path) with
  | some (.file _ mode) => mode
  | _ => os.newMode

omit [DecidableEq κ] in
theorem metadata_of_calm (hcalm : os.Calm) {path : Path} {disk : Disk κ} {node : Node}
    (hnode : disk (os.resolve path) = some node) : metadata os path disk = .ok node := by
  simp only [metadata, hcalm.stat _ _, hnode]

omit [DecidableEq κ] in
theorem openFile_of_calm (hcalm : os.Calm) {path : Path} {disk : Disk κ} {node : Node}
    (hnode : disk (os.resolve path) = some node) :
    openFile os path disk = .ok (os.resolve path) := by
  simp only [openFile, hcalm.opens, hnode]

omit [DecidableEq κ] in
theorem readToEnd_of_calm (hcalm : os.Calm) {handle : κ} {disk : Disk κ} {content : Bytes}
    {mode : Nat} (hnode : disk handle = some (.file content mode)) :
    readToEnd os handle disk = .ok content := by
  simp only [readToEnd, hcalm.reads, hnode]

/-- Opening for writing empties the file, or makes a new one. -/
theorem create_of_calm (hcalm : os.Calm) {path : Path} {disk : Disk κ}
    (hdir : disk (os.resolve path) ≠ some .directory) :
    (create os path).run disk =
      (.ok (os.resolve path), disk.put (os.resolve path) [] (os.modeAt path disk)) := by
  simp only [create, Program.run, hcalm.creates, Os.modeAt]
  cases hnode : disk (os.resolve path) with
  | none => rfl
  | some node =>
      cases node with
      | directory => exact (hdir hnode).elim
      | file content mode => rfl

/-- Writing a whole file leaves it there, with the mode the file had or a new one has. -/
theorem writeFile_of_calm (hcalm : os.Calm) {path : Path} {disk : Disk κ} (content : Bytes)
    (hdir : disk (os.resolve path) ≠ some .directory) :
    (writeFile os path content).run disk =
      (.ok (), disk.put (os.resolve path) content (os.modeAt path disk)) := by
  rw [writeFile, Program.run_bind_of_ok (create_of_calm hcalm hdir), writeAll_put hcalm.writes,
    List.nil_append]

theorem setPermissions_of_calm (hcalm : os.Calm) (path : Path) (disk : Disk κ) (content : Bytes)
    (mode mode' : Nat) :
    (setPermissions os path mode').run (disk.put (os.resolve path) content mode) =
      (.ok (), disk.put (os.resolve path) content mode') :=
  (setPermissions_put os path disk content mode mode').resolve_right fun h => h.1 hcalm.chmods

/-! ## Writes that fail -/

/-- A run beside the run of the same program on a device where no write fails: both left the
disk alone, both wrote the same file, or the first stopped with a part of the file that the
second wrote.  Files are written to places that `May` admits. -/
inductive CutShort {ε α : Type} (May : κ → Prop) (disk : Disk κ) :
    Exec ε α × Disk κ → Exec ε α × Disk κ → Prop
  | same {r : Exec ε α × Disk κ} (hdisk : r.2 = disk) : CutShort May disk r r
  | whole {r : Exec ε α × Disk κ} {place : κ} {content : Bytes} {mode : Nat} (hmay : May place)
      (hput : r.2 = disk.put place content mode) : CutShort May disk r r
  | part {r : Exec ε α × Disk κ} {place : κ} {content part : Bytes} {mode mode' : Nat}
      {fault : Fault ε} (hmay : May place) (hpart : part <+: content)
      (hput : r.2 = disk.put place content mode) :
      CutShort May disk (.error fault, disk.put place part mode') r

section CutShort

variable {ε α β : Type} {May May' : κ → Prop} {disk : Disk κ}

theorem CutShort.mono {r r' : Exec ε α × Disk κ} (h : CutShort May disk r r')
    (hmono : ∀ place, May place → May' place) : CutShort May' disk r r' := by
  cases h with
  | same hdisk => exact .same hdisk
  | whole hmay hput => exact .whole (hmono _ hmay) hput
  | part hmay hpart hput => exact .part (hmono _ hmay) hpart hput

end CutShort

end Calls

end Machine
