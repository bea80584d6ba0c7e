import Upxz.Cli.Vault

/-!
# Cli - Refusals leave the disk alone

Packing and unpacking make all their checks before they touch the disk.  What a run
can do to it is one statement about its outcome: an error changes nothing, a success
changes the output alone, and without `-f` nothing that was there changes at all.

Main results:

- Theorem `packSfx_onlyOutput` and `unpack_onlyOutput`: that statement for each of the
  two commands.
- Theorem `refusals_leave_disk`: for both commands at once.
-/

namespace Upxz
namespace Cli

open Machine Format

section Refusals

variable {κ : Type}

/-- What a command that writes at most one output may do to a disk.  `Output` says which
path it writes, and with what content. -/
structure OnlyOutput (os : Os κ) (disk : Disk κ) (input : Path) (force : Bool)
    (Output : Path → Bytes → Prop) (r : Exec Error Unit × Disk κ) : Prop where
  keeps : force = false → ∀ place, disk place ≠ none → r.2 place = disk place
  refuses : (∃ fault, r.1 = .error fault) → r.2 = disk
  writes : r.1 = .ok () → ∃ output content, Output output content ∧
    (∃ mode, r.2 (os.resolve output) = some (.file content mode)) ∧
    (∀ place, place ≠ os.resolve output → r.2 place = disk place) ∧
    (r.2 (os.resolve input) = disk (os.resolve input) ∨
      os.resolve output = os.resolve input ∧ force = true)

/-- A refusal leaves everything as it was. -/
theorem onlyOutput_of_refused {os : Os κ} {disk : Disk κ} {input : Path} {force : Bool}
    {Output : Path → Bytes → Prop} {r : Exec Error Unit × Disk κ}
    (h : Program.Refused disk r) : OnlyOutput os disk input force Output r := by
  rcases h with ⟨fault, rfl⟩
  exact
    { keeps := fun _ _ _ => rfl
      refuses := fun _ => rfl
      writes := fun hok => by cases hok }

variable [DecidableEq κ]

/-- A written output that was free, or forced, is all that changes. -/
theorem onlyOutput_of_wrote {os : Os κ} (hstat : os.StatSucceeds) (hchmod : os.ChmodSucceeds)
    {disk : Disk κ} {input output : Path} {force : Bool} {Output : Path → Bytes → Prop}
    {content : Bytes} {r : Exec Error Unit × Disk κ} (hinput : disk (os.resolve input) ≠ none)
    (hfree : ¬(pathExists os output disk = true ∧ force = false))
    (houtput : Output output content) (h : Wrote os disk output content r) :
    OnlyOutput os disk input force Output r := by
  rcases h with ⟨mode, hdisk, houtcome⟩
  have hok : r.1 = .ok () := houtcome.resolve_right fun hfailed => hfailed.1 hchmod
  have hnew : force = false → disk (os.resolve output) = none := by
    intro hforce
    by_contra hthere
    exact hfree ⟨(pathExists_iff hstat output disk).mpr hthere, hforce⟩
  have hother : ∀ place, place ≠ os.resolve output → r.2 place = disk place := by
    intro place hne
    rw [hdisk, Disk.put_of_ne content mode hne]
  refine ⟨?_, ?_, ?_⟩
  · intro hforce place hthere
    apply hother
    intro heq
    rw [heq] at hthere
    exact hthere (hnew hforce)
  · intro hfailed
    rcases hfailed with ⟨fault, hfault⟩
    rw [hok] at hfault
    cases hfault
  · intro _
    refine ⟨output, content, houtput, ⟨mode, by rw [hdisk, Disk.put_same]⟩, hother, ?_⟩
    by_cases hsame : os.resolve output = os.resolve input
    · cases force with
      | true => exact Or.inr ⟨hsame, rfl⟩
      | false => exact (hinput (hsame ▸ hnew rfl)).elim
    · exact Or.inl (hother _ (Ne.symm hsame))

/-- The output of a packing: the path that was asked for, with the layout of the target
around the container of the input. -/
def PackOutput (host : Host κ) (disk : Disk κ) (input output : Path) (level : LevelArgs)
    (force : Bool) (path : Path) (content : Bytes) : Prop :=
  path = output ∧ ∃ p : Packing host disk input output level force, p.file = content

/-- The output of an unpacking: the path its names lead to, with the original. -/
def UnpackOutput (host : Host κ) (disk : Disk κ) (input : Path) (force : Bool) (path : Path)
    (content : Bytes) : Prop :=
  ∃ u : Unpacking host disk input force, u.outPath = path ∧ u.restored = content

variable {host : Host κ}

theorem packSfx_onlyOutput (hstat : host.os.StatSucceeds) (hwrites : host.os.WritesSucceed)
    (hchmod : host.os.ChmodSucceeds) (input output : Path) (level : LevelArgs) (force : Bool)
    (disk : Disk κ) :
    OnlyOutput host.os disk input force (PackOutput host disk input output level force)
      ((packSfx host input output level force).run disk) := by
  rcases packSfx_cases hwrites input output level force disk with hrefused | ⟨p, hwrote⟩
  · exact onlyOutput_of_refused hrefused
  · have hinput : disk (host.os.resolve input) ≠ none := by
      rw [p.read]
      exact Option.some_ne_none _
    exact onlyOutput_of_wrote hstat hchmod hinput p.free ⟨rfl, p, rfl⟩ hwrote

theorem unpack_onlyOutput (hstat : host.os.StatSucceeds) (hwrites : host.os.WritesSucceed)
    (hchmod : host.os.ChmodSucceeds) (input : Path) (force : Bool) (disk : Disk κ) :
    OnlyOutput host.os disk input force (UnpackOutput host disk input force)
      ((unpack host input force).run disk) := by
  rcases unpack_cases hwrites input force disk with hrefused | ⟨u, hwrote⟩
  · exact onlyOutput_of_refused hrefused
  · have hinput : disk (host.os.resolve input) ≠ none := by
      rw [u.read]
      exact Option.some_ne_none _
    exact onlyOutput_of_wrote hstat hchmod hinput u.free ⟨u, rfl, rfl⟩ hwrote

/-- On a disk whose reads of metadata, writes and mode changes succeed, whatever else
fails: without `-f` neither command changes anything that was there; an error leaves the
whole disk as it was; and a success changes the output alone, which then holds the packed
layout or the original, so the input changes only when it is the forced output. -/
theorem refusals_leave_disk (hstat : host.os.StatSucceeds) (hwrites : host.os.WritesSucceed)
    (hchmod : host.os.ChmodSucceeds) (input : Path) (force : Bool) (disk : Disk κ) :
    (∀ output level,
      OnlyOutput host.os disk input force (PackOutput host disk input output level force)
        ((packSfx host input output level force).run disk)) ∧
    OnlyOutput host.os disk input force (UnpackOutput host disk input force)
      ((unpack host input force).run disk) :=
  ⟨fun output level => packSfx_onlyOutput hstat hwrites hchmod input output level force disk,
    unpack_onlyOutput hstat hwrites hchmod input force disk⟩

end Refusals

/-- Packing `hi.txt` onto itself without `-f` leaves it alone, and so does unpacking it. -/
theorem refusals_leave_disk_hi :
    ((packSfx linuxHost (asBytes "hi.txt") (asBytes "hi.txt") LevelArgs.default false).run
        hiDisk).2 (asBytes "hi.txt") = some (.file (asBytes "hi") 0o644) ∧
      ((unpack linuxHost (asBytes "hi.txt") false).run hiDisk).2 (asBytes "hi.txt") =
        some (.file (asBytes "hi") 0o644) := by
  have hleave := @refusals_leave_disk Path _ linuxHost (fun _ _ => rfl) (fun _ _ _ => rfl)
    (fun _ _ => rfl) (asBytes "hi.txt") false hiDisk
  have hthere : hiDisk (asBytes "hi.txt") = some (.file (asBytes "hi") 0o644) := if_pos rfl
  have hne : hiDisk (asBytes "hi.txt") ≠ none := by
    rw [hthere]
    exact Option.some_ne_none _
  constructor
  · rw [← hthere]
    exact (hleave.1 (asBytes "hi.txt") LevelArgs.default).keeps rfl _ hne
  · rw [← hthere]
    exact hleave.2.keeps rfl _ hne

end Cli
end Upxz
