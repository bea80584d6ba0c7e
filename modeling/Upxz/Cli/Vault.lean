import Mathlib.Logic.Relation
import Upxz.Cli.Commands

/-!
# Cli - Never packed twice

To its user a file is an original, or an original packed; there is nothing else
to be packed or unpacked.  `Vault` is a disk in these terms, and `Vault.Step` is
what a command may do to it.  The commands of `main.rs` refine it: after any
sequence of them, started on plain files, the disk still shows a vault.

Main results:

- Theorem `main_refines`: one command does one step of the vault.
- Theorem `runAll_refines`: a sequence of commands does a sequence of steps.
- Theorem `never_double_packed`: every file reached is plain or a plain file packed
  once, and what was packed is refused from then on.
- Theorem `runAll_originals`: every file reached holds an original that was there
  at the start.
-/

set_option linter.dupNamespace false

namespace Upxz
namespace Cli

open Machine Format

/-! ## The vault -/

/-- A file as its user thinks of it. -/
inductive Artifact where
  | plain (original : Bytes)
  | packed (original : Bytes)

/-- The original a file is, or holds. -/
def Artifact.original : Artifact → Bytes
  | .plain original => original
  | .packed original => original

/-- What every place holds, in those terms. -/
abbrev Vault (κ : Type) := κ → Option Artifact

section Steps

variable {κ : Type} [DecidableEq κ]

/-- One command: it refuses, packs an original, or unpacks a packed one. -/
inductive Vault.Step (v : Vault κ) : Vault κ → Prop
  | refuse : Vault.Step v v
  | pack (input output : κ) (original : Bytes) (h : v input = some (.plain original)) :
      Vault.Step v (Function.update v output (some (.packed original)))
  | unpack (input output : κ) (original : Bytes) (h : v input = some (.packed original)) :
      Vault.Step v (Function.update v output (some (.plain original)))

/-- The originals of a vault. -/
def Vault.originals (v : Vault κ) : Set Bytes :=
  {original | ∃ place artifact, v place = some artifact ∧ artifact.original = original}

/-- Copying an original, packed or not, brings no new original. -/
theorem Vault.originals_update_subset {v : Vault κ} {output : κ} {artifact : Artifact}
    (h : artifact.original ∈ v.originals) :
    Vault.originals (Function.update v output (some artifact)) ⊆ v.originals := by
  intro original horiginal
  rcases horiginal with ⟨place, found, hfound, rfl⟩
  by_cases hplace : place = output
  · rw [hplace, Function.update_self] at hfound
    cases hfound
    exact h
  · rw [Function.update_of_ne hplace] at hfound
    exact ⟨place, found, hfound, rfl⟩

/-- A step brings no new original. -/
theorem Vault.Step.originals_subset {v v' : Vault κ} (h : Vault.Step v v') :
    v'.originals ⊆ v.originals := by
  cases h with
  | refuse => exact subset_rfl
  | pack input output original hinput =>
      exact Vault.originals_update_subset ⟨input, _, hinput, rfl⟩
  | unpack input output original hinput =>
      exact Vault.originals_update_subset ⟨input, _, hinput, rfl⟩

/-- No sequence of steps brings a new original. -/
theorem Vault.originals_subset_of_steps {v v' : Vault κ}
    (h : Relation.ReflTransGen Vault.Step v v') : v'.originals ⊆ v.originals := by
  induction h with
  | refl => exact subset_rfl
  | tail _ hstep ih => exact hstep.originals_subset.trans ih

end Steps

/-! ## The vault a disk shows -/

variable {κ : Type}

/-- A file packed once: its header is parsed, and its payload decompresses to a
plain original. -/
def SinglyPacked (host : Host κ) (content original : Bytes) : Prop :=
  ∃ header payload, ReaderExtracts host.overflow content header payload ∧
    decompress host.backend header.codec payload = .ok original ∧
    classify host.overflow original = .ok .plain

/-- How what stands at a place looks to the user. -/
inductive Shows (host : Host κ) : Option Node → Option Artifact → Prop
  | absent : Shows host none none
  | directory : Shows host (some .directory) none
  | plain {content : Bytes} {mode : Nat} (h : classify host.overflow content = .ok .plain) :
      Shows host (some (.file content mode)) (some (.plain content))
  | packed {content original : Bytes} {mode : Nat} (h : SinglyPacked host content original) :
      Shows host (some (.file content mode)) (some (.packed original))

/-- Every place of the disk shows what the vault holds there. -/
def Represents (host : Host κ) (disk : Disk κ) (v : Vault κ) : Prop :=
  ∀ place, Shows host (disk place) (v place)

theorem SinglyPacked.not_plain {host : Host κ} {content original : Bytes}
    (h : SinglyPacked host content original) : classify host.overflow content ≠ .ok .plain := by
  rcases h with ⟨header, payload, ⟨offset, len, off, hkind, -, -⟩, -⟩
  rw [hkind]
  intro hplain
  cases hplain

/-- A file is shown as a plain file or as a packed one. -/
theorem Shows.file_cases {host : Host κ} {content : Bytes} {mode : Nat} {a : Option Artifact}
    (h : Shows host (some (.file content mode)) a) :
    (classify host.overflow content = .ok .plain ∧ a = some (.plain content)) ∨
      ∃ original, SinglyPacked host content original ∧ a = some (.packed original) := by
  cases h with
  | plain hplain => exact Or.inl ⟨hplain, rfl⟩
  | packed hpacked => exact Or.inr ⟨_, hpacked, rfl⟩

/-- A plain file is shown as itself. -/
theorem Shows.eq_plain {host : Host κ} {content : Bytes} {mode : Nat} {a : Option Artifact}
    (h : Shows host (some (.file content mode)) a)
    (hplain : classify host.overflow content = .ok .plain) : a = some (.plain content) := by
  rcases h.file_cases with ⟨-, ha⟩ | ⟨original, hpacked, -⟩
  · exact ha
  · exact (hpacked.not_plain hplain).elim

/-- A file the reader unpacks is shown as the packed form of what comes out, which is
plain. -/
theorem Shows.eq_packed {host : Host κ} {content payload original : Bytes} {mode : Nat}
    {header : Header} {a : Option Artifact} (h : Shows host (some (.file content mode)) a)
    (hextract : ReaderExtracts host.overflow content header payload)
    (hdecompress : decompress host.backend header.codec payload = .ok original) :
    a = some (.packed original) ∧ classify host.overflow original = .ok .plain := by
  rcases h.file_cases with ⟨hplain, -⟩ | ⟨original', hpacked, ha⟩
  · rcases hextract with ⟨offset, len, off, hkind, -, -⟩
    rw [hplain] at hkind
    cases hkind
  · rcases hpacked with ⟨header', payload', hextract', hdecompress', hplain⟩
    rcases hextract.unique hextract' with ⟨rfl, rfl⟩
    rw [hdecompress] at hdecompress'
    cases hdecompress'
    exact ⟨ha, hplain⟩

/-- The vault of a disk whose files are all plain. -/
def plainVault (disk : Disk κ) : Vault κ := fun place =>
  match disk place with
  | some (.file content _) => some (.plain content)
  | _ => none

/-- Every file of a disk is plain. -/
def AllPlain (host : Host κ) (disk : Disk κ) : Prop :=
  ∀ place content mode, disk place = some (.file content mode) →
    classify host.overflow content = .ok .plain

/-- A disk of plain files shows a vault of originals. -/
theorem AllPlain.represents {host : Host κ} {disk : Disk κ} (hplain : AllPlain host disk) :
    Represents host disk (plainVault disk) := by
  intro place
  unfold plainVault
  cases hnode : disk place with
  | none => exact .absent
  | some node =>
      cases node with
      | directory => exact .directory
      | file content mode => exact .plain (hplain place content mode hnode)

/-- The originals of a disk of plain files are its files. -/
theorem mem_originals_plainVault {disk : Disk κ} {original : Bytes}
    (h : original ∈ (plainVault disk).originals) :
    ∃ place mode, disk place = some (.file original mode) := by
  rcases h with ⟨place, artifact, hartifact, rfl⟩
  unfold plainVault at hartifact
  split at hartifact
  · rename_i content mode hnode
    cases hartifact
    exact ⟨place, mode, hnode⟩
  · cases hartifact

/-! ## The commands refine the vault -/

/-- The name the packer would store is one the reader accepts. -/
def Cli.ShortName (cli : Cli) (host : Host κ) : Prop :=
  ∀ name, host.sanitizeName cli.file = .ok name → (asBytes name).length ≤ maxNameLen

/-- The name stored is the last component of the input path. -/
theorem Cli.shortName_of_fileName {cli : Cli} {host : Host κ} {last : Bytes}
    (h : host.target.fileName cli.file = some last) (hlen : last.length ≤ maxNameLen) :
    cli.ShortName host := by
  intro name hname
  have hlast := (Host.sanitizeName_eq_ok_iff.mp hname).1
  rw [h] at hlast
  cases hlast
  exact hlen

/-- What a packing wrote is its input packed once. -/
theorem Packing.singlyPacked {host : Host κ} (hround : host.backend.RoundTrip)
    (hembedded : host.embedded.head? ≠ some 0x55) {disk : Disk κ} {input output : Path}
    {level : LevelArgs} {force : Bool} (p : Packing host disk input output level force)
    (hname : (asBytes p.name).length ≤ maxNameLen) : SinglyPacked host p.file p.raw := by
  let stub : StubImage :=
    ⟨host.embedded, p.embedded_ne_nil, hembedded, host.embedded_addressable⟩
  let h : Header := ⟨p.name, level.codec⟩
  have hback : ∃ offset, ReadsBack host.backend host.overflow p.file offset
      (h.encode ++ p.payload) h p.raw := by
    have hlayout := p.layout
    generalize p.file = file at hlayout ⊢
    cases hlayout with
    | stub htarget =>
        exact ⟨_, readsBack_stubImage hround stub.not_startsWithMagic stub.addressable hname
          p.compressed⟩
    | loader htarget hloader happ =>
        exact ⟨_, readsBack_loaderImage hround stub.not_startsWithMagic hloader happ hname
          p.compressed⟩
  rcases hback with ⟨offset, hback⟩
  rcases hback.extracts with ⟨payload, hextract, hdecompress⟩
  exact ⟨h, payload, hextract, hdecompress, p.plain⟩

section Refinement

variable [DecidableEq κ]

/-- A file put on the disk is put into the vault. -/
theorem Represents.put {host : Host κ} {disk : Disk κ} {v : Vault κ} (h : Represents host disk v)
    (place : κ) {content : Bytes} {mode : Nat} {artifact : Artifact}
    (hshows : Shows host (some (.file content mode)) (some artifact)) :
    Represents host (disk.put place content mode) (Function.update v place (some artifact)) := by
  intro other
  by_cases hother : other = place
  · rw [hother, Disk.put_same, Function.update_self]
    exact hshows
  · rw [Disk.put_of_ne _ _ hother, Function.update_of_ne hother]
    exact h other

variable {host : Host κ} (hround : host.backend.RoundTrip)
  (hembedded : host.embedded.head? ≠ some 0x55) (hwrites : host.os.WritesSucceed)

include hround hembedded hwrites

/-- One command does one step of the vault. -/
theorem main_refines {cli : Cli} (hname : cli.ShortName host) {disk : Disk κ} {v : Vault κ}
    (h : Represents host disk v) :
    ∃ v', Vault.Step v v' ∧ Represents host ((main host cli).run disk).2 v' := by
  rcases main_cases hwrites cli disk with hsame | ⟨output, -, p, mode, hput, -⟩ |
    ⟨u, mode, hput, -⟩
  · exact ⟨v, .refuse, by rw [hsame]; exact h⟩
  · have hinput := h (host.os.resolve cli.file)
    rw [p.read] at hinput
    have hpacked := p.singlyPacked hround hembedded (hname p.name p.named)
    refine ⟨_, .pack _ (host.os.resolve output) p.raw (hinput.eq_plain p.plain), ?_⟩
    rw [hput]
    exact h.put _ (.packed hpacked)
  · have hinput := h (host.os.resolve cli.file)
    rw [u.read] at hinput
    rcases hinput.eq_packed u.extracted u.decompressed with ⟨hvault, hplain⟩
    refine ⟨_, .unpack _ (host.os.resolve u.outPath) u.restored hvault, ?_⟩
    rw [hput]
    exact h.put _ (.plain hplain)

/-- A sequence of commands does a sequence of steps. -/
theorem runAll_refines {commands : List Cli} (hnames : ∀ cli ∈ commands, cli.ShortName host)
    {disk : Disk κ} {v : Vault κ} (h : Represents host disk v) :
    ∃ v', Relation.ReflTransGen Vault.Step v v' ∧
      Represents host (Program.runAll (main host) commands disk) v' := by
  refine Program.runAll_invariant
    (I := fun disk => ∃ v', Relation.ReflTransGen Vault.Step v v' ∧ Represents host disk v')
    ?_ ⟨v, .refl, h⟩
  intro cli hcli disk hdisk
  rcases hdisk with ⟨v₁, hsteps, hrep⟩
  rcases main_refines hround hembedded hwrites (hnames cli hcli) hrep with ⟨v₂, hstep, hrep'⟩
  exact ⟨v₂, hsteps.tail hstep, hrep'⟩

/-- A packing that is not refused leaves its output packed. -/
theorem main_packed {cli : Cli} (hname : cli.ShortName host) {output : Path}
    (hpack : cli.packOutput = some output) {disk : Disk κ}
    (hmade : ¬Program.Refused disk ((main host cli).run disk)) :
    ∃ content mode original, SinglyPacked host content original ∧
      ((main host cli).run disk).2 (host.os.resolve output) = some (.file content mode) := by
  rcases main_packs host hpack disk with hrefused | heq
  · exact (hmade hrefused).elim
  · rw [heq] at hmade ⊢
    rcases packSfx_cases hwrites cli.file output cli.level cli.force disk with
      hrefused | ⟨p, mode, hput, -⟩
    · exact (hmade hrefused).elim
    · refine ⟨p.file, mode, p.raw, p.singlyPacked hround hembedded (hname p.name p.named), ?_⟩
      rw [hput, Disk.put_same]

/-- Starting from plain files, after any sequence of commands every file holds, plain
or packed, a file that was there at the start. -/
theorem runAll_originals {start : Disk κ} (hplain : AllPlain host start)
    {commands : List Cli} (hnames : ∀ cli ∈ commands, cli.ShortName host) {place : κ}
    {content : Bytes} {mode : Nat}
    (hnode : Program.runAll (main host) commands start place = some (.file content mode)) :
    ∃ original place₀ mode₀, start place₀ = some (.file original mode₀) ∧
      (content = original ∨ SinglyPacked host content original) := by
  rcases runAll_refines hround hembedded hwrites hnames hplain.represents with ⟨v, hsteps, hrep⟩
  have hshows := hrep place
  rw [hnode] at hshows
  have horiginal : ∃ artifact, v place = some artifact ∧
      (content = artifact.original ∨ SinglyPacked host content artifact.original) := by
    rcases hshows.file_cases with ⟨-, hartifact⟩ | ⟨original, hpacked, hartifact⟩
    · exact ⟨_, hartifact, Or.inl rfl⟩
    · exact ⟨_, hartifact, Or.inr hpacked⟩
  rcases horiginal with ⟨artifact, hartifact, hcontent⟩
  have hmem := Vault.originals_subset_of_steps hsteps ⟨place, artifact, hartifact, rfl⟩
  rcases mem_originals_plainVault hmem with ⟨place₀, mode₀, hstart⟩
  exact ⟨artifact.original, place₀, mode₀, hstart, hcontent⟩

/-- Starting from plain files, after any sequence of commands every file is plain or
is a plain file packed once; and from a packing that was not refused on, whatever
commands follow, every command that asks for a packed output is refused on a file that
still is what the packing made, and leaves the disk as it was. -/
theorem never_double_packed {start : Disk κ} (hplain : AllPlain host start)
    (commands : List Cli) (hnames : ∀ cli ∈ commands, cli.ShortName host) :
    (∀ place content mode,
      Program.runAll (main host) commands start place = some (.file content mode) →
        classify host.overflow content = .ok .plain ∨
          ∃ original, SinglyPacked host content original) ∧
    (∀ before packing later, commands = before ++ packing :: later →
      ∀ output, packing.packOutput = some output →
        let found := Program.runAll (main host) before start
        let made := (main host packing).run found
        let disk := Program.runAll (main host) later made.2
        ¬Program.Refused found made →
          ∀ (again : Cli) (output' : Path), again.packOutput = some output' →
            disk (host.os.resolve again.file) = made.2 (host.os.resolve output) →
              Program.Refused disk ((main host again).run disk)) := by
  constructor
  · intro place content mode hnode
    rcases runAll_refines hround hembedded hwrites hnames hplain.represents with ⟨v, -, hrep⟩
    have hshows := hrep place
    rw [hnode] at hshows
    rcases hshows.file_cases with ⟨hkind, -⟩ | ⟨original, hpacked, -⟩
    · exact Or.inl hkind
    · exact Or.inr ⟨original, hpacked⟩
  · intro before packing later hsplit output hpack found made disk hmade again output' hagain
      hsame
    have hname : packing.ShortName host := hnames packing (by simp [hsplit])
    rcases main_packed hround hembedded hwrites hname hpack hmade with
      ⟨content, mode, original, hpacked, hnode⟩
    exact main_refuses hagain (hsame.trans hnode) hpacked.not_plain

end Refinement

/-- A system on which no call fails and every path leads to a place of its own. -/
def plainOs : Os Path where
  resolve := id
  newMode := 0o644
  statFault _ _ := none
  openFault _ _ := none
  readFault _ _ := none
  createFault _ _ := none
  writeFault _ _ _ := none
  chmodFault _ _ := none

/-- A Linux build with the smallest stub and a backend that stores. -/
def linuxHost : Host Path where
  target := .linux
  embedded := elfStub.bytes
  overflow := .checked
  backend := storedBackend
  os := plainOs
  embedded_addressable := elfStub.addressable

/-- The same for another target. -/
def hostFor (target : Target) : Host Path :=
  { linuxHost with target := target }

/-- A disk with one two-byte file. -/
def hiDisk : Disk Path := fun path =>
  if path = asBytes "hi.txt" then some (.file (asBytes "hi") 0o644) else none

/-- A command line with no flags. -/
def bareCli (file : Path) : Cli where
  file := file
  createSfx := false
  sfxOutput := none
  list := false
  test := false
  decompress := false
  level := LevelArgs.default
  force := false

/-- `hi.txt` and what it is packed to have short names. -/
theorem shortName_hi {cli : Cli}
    (h : cli.file = asBytes "hi.txt" ∨ cli.file = asBytes "hi.txt.upxz") :
    cli.ShortName linuxHost := by
  have hlast : linuxHost.target.fileName cli.file = some cli.file ∧
      cli.file.length ≤ maxNameLen := by
    rcases h with h | h
    · rw [h]
      decide
    · rw [h]
      decide
  exact Cli.shortName_of_fileName hlast.1 hlast.2

theorem hiDisk_allPlain : AllPlain linuxHost hiDisk := by
  intro place content mode hnode
  unfold hiDisk at hnode
  split_ifs at hnode
  cases hnode
  decide

/-- Packing `hi.txt` makes a file that the next pack refuses and that unpacks to
`hi.txt` again. -/
theorem never_double_packed_hi :
    let pack := bareCli (asBytes "hi.txt")
    let again := bareCli (asBytes "hi.txt.upxz")
    let made := (main linuxHost pack).run hiDisk
    (∀ place content mode,
      Program.runAll (main linuxHost)
        [pack, again, { again with decompress := true, force := true }] hiDisk place =
          some (.file content mode) →
        classify .checked content = .ok .plain ∨
          ∃ original, SinglyPacked linuxHost content original) ∧
    Program.Refused made.2 ((main linuxHost again).run made.2) := by
  intro pack again made
  have hpack : pack.ShortName linuxHost := shortName_hi (Or.inl rfl)
  have hagain : again.ShortName linuxHost := shortName_hi (Or.inr rfl)
  have hnames : ∀ cli ∈ [pack, again, { again with decompress := true, force := true }],
      cli.ShortName linuxHost := by
    intro cli hcli
    simp only [List.mem_cons, List.not_mem_nil, or_false] at hcli
    rcases hcli with rfl | rfl | rfl
    · exact hpack
    · exact hagain
    · exact hagain
  refine ⟨(never_double_packed storedBackend_roundTrip (by decide) (fun _ _ _ => rfl)
    hiDisk_allPlain _ hnames).1, ?_⟩
  exact (never_double_packed storedBackend_roundTrip (by decide) (fun _ _ _ => rfl)
    hiDisk_allPlain [pack] (by simpa using hpack)).2 [] pack [] rfl _ rfl
    (Program.not_refused_of_ok rfl) again _ rfl rfl

/-- Packed and unpacked over itself, `hi.txt` is still all there is. -/
theorem runAll_originals_hi :
    let pack := bareCli (asBytes "hi.txt")
    let unpack := { bareCli (asBytes "hi.txt.upxz") with decompress := true, force := true }
    ∀ place content mode,
      Program.runAll (main linuxHost) [pack, unpack] hiDisk place = some (.file content mode) →
        ∃ original place₀ mode₀, hiDisk place₀ = some (.file original mode₀) ∧
          (content = original ∨ SinglyPacked linuxHost content original) := by
  intro pack unpack place content mode hnode
  have hround : linuxHost.backend.RoundTrip := storedBackend_roundTrip
  have hpack : pack.ShortName linuxHost := shortName_hi (Or.inl rfl)
  have hunpack : unpack.ShortName linuxHost := shortName_hi (Or.inr rfl)
  have hnames : ∀ cli ∈ [pack, unpack], cli.ShortName linuxHost := by
    intro cli hcli
    simp only [List.mem_cons, List.not_mem_nil, or_false] at hcli
    rcases hcli with rfl | rfl
    · exact hpack
    · exact hunpack
  exact runAll_originals hround (by decide) (fun _ _ _ => rfl) hiDisk_allPlain hnames hnode

end Cli
end Upxz
