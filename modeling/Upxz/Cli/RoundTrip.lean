import Upxz.Cli.Readers

/-!
# Cli - What a packed file is worth

A packing that ended well leaves a file that `-t` accepts, `-l` describes and `-d` restores,
on any disk that still holds it and under any path that leads to it.

Main results:

- Theorem `Packing.readsBack`: the file a packing wrote reads back behind the embedded piece.
- Theorem `Restores.of_readsBack`: a file that reads back is tested, listed and restored.
- Theorem `pack_then_restore`: what was packed can be tested, listed and restored.
-/

namespace Upxz
namespace Cli

open Machine Format

section RoundTrip

variable {κ : Type} {host : Host κ}

/-! ## Reading a packed file -/

/-- The file a packing wrote reads back, behind the embedded piece. -/
theorem Packing.readsBack (hround : host.backend.RoundTrip)
    (hembedded : host.embedded.head? ≠ some 0x55) {disk : Disk κ} {input output : Path}
    {level : LevelArgs} {force : Bool} (p : Packing host disk input output level force)
    (hname : (asBytes p.name).length ≤ maxNameLen) :
    ReadsBack host.backend host.overflow p.file host.embedded.length
      ((Header.mk p.name level.codec).encode ++ p.payload) ⟨p.name, level.codec⟩ p.raw := by
  let stub : StubImage :=
    ⟨host.embedded, p.embedded_ne_nil, hembedded, host.embedded_addressable⟩
  have hlayout := p.layout
  generalize p.file = file at hlayout ⊢
  cases hlayout with
  | stub htarget =>
      exact readsBack_stubImage hround stub.not_startsWithMagic stub.addressable hname
        p.compressed
  | loader htarget hloader happ =>
      exact readsBack_loaderImage hround stub.not_startsWithMagic hloader happ hname p.compressed

/-! ## Test, list and restore -/

/-- What the reading commands make of a self-extractor: it passes its test, its listing names
the original, and unpacking it to a free place leaves the original there and changes nothing
else. -/
structure Restores [DecidableEq κ] (host : Host κ) (disk : Disk κ) (path : Path) (h : Header)
    (raw : Bytes) : Prop where
  tests : test host path disk = .ok ()
  lists : ∃ packed fileSize, list host path disk =
    .ok ⟨"upxz self-extractor", h.codec.name, h.name, packed, some fileSize, raw.length⟩
  unpacks : ∀ out force, host.unpackOutput path h.name = .ok out →
    ¬(pathExists host.os out disk = true ∧ force = false) →
    disk (host.os.resolve out) ≠ some .directory →
    (unpack host path force).run disk =
      (.ok (), disk.put (host.os.resolve out) raw (host.restoredMode out raw disk))

section Restoring

variable {file container raw : Bytes} {offset mode : Nat} {h : Header} {path : Path}
  {disk : Disk κ}

/-- A file that reads back has a reading. -/
theorem exists_reading_of_readsBack
    (hback : ReadsBack host.backend host.overflow file offset container h raw)
    (hnode : disk (host.os.resolve path) = some (.file file mode))
    (hsize : file.length ≤ isizeMax) :
    ∃ r : Reading host disk path, r.offset = offset ∧ r.header = h ∧ r.original = raw := by
  rcases hback.parsed with ⟨off, hparse, -, hdecompress⟩
  have hparsed : parseHeader ((file.drop offset).take container.length) = .ok (h, off) := by
    rw [hback.cut, hparse]
  rw [← hback.cut] at hdecompress
  exact ⟨⟨file, mode, offset, container.length, h, _, raw, hnode, hsize, hback.located,
    ⟨off, hparsed, rfl⟩, hdecompress⟩, rfl, rfl, rfl⟩

variable [DecidableEq κ]

/-- A file that reads back behind a stub is tested, listed and restored. -/
theorem Restores.of_readsBack (hcalm : host.os.Calm)
    (hback : ReadsBack host.backend host.overflow file offset container h raw)
    (hoffset : offset ≠ 0) (hnode : disk (host.os.resolve path) = some (.file file mode))
    (hsize : file.length ≤ isizeMax) : Restores host disk path h raw := by
  rcases exists_reading_of_readsBack hback hnode hsize with ⟨r, hoff, rfl, rfl⟩
  rw [← hoff] at hoffset
  exact {
    tests := (test_eq_ok_iff hcalm).mpr ⟨r⟩
    lists := ⟨r.size, r.buf.length, (list_eq_ok_iff hcalm).mpr ⟨r, if_neg hoffset⟩⟩
    unpacks := fun out _ hout hfree hdir =>
      (unpack_eq_ok_iff hcalm).mpr ⟨r, out, hout, hfree, hdir, rfl⟩ }

end Restoring

/-! ## Packing for good -/

section Packing

variable [DecidableEq κ]

/-- What stands at a path whose mode was changed is a directory, or a file of that mode. -/
theorem mode_of_makeExecutable {output : Path} {disk disk' : Disk κ} {content : Bytes}
    {mode : Nat} (h : (makeExecutable host output).run disk = (.ok (), disk'))
    (hnode : disk' (host.os.resolve output) = some (.file content mode)) : mode = 0o755 := by
  simp only [makeExecutable, ioContext, Program.mapError, setPermissions, Program.run] at h
  cases hfault : host.os.chmodFault disk output with
  | some e =>
      rw [hfault] at h
      cases h
  | none =>
      rw [hfault] at h
      cases hstands : disk (host.os.resolve output) with
      | none =>
          rw [hstands] at h
          cases h
      | some node =>
          cases node with
          | directory =>
              rw [hstands] at h
              cases h
              rw [hstands] at hnode
              cases hnode
          | file stored mode' =>
              rw [hstands] at h
              cases h
              rw [Disk.put_same] at hnode
              cases hnode
              rfl

/-- On Unix a self-extractor that was written is executable. -/
theorem mode_of_writeSfx (hunix : host.target.unix = true) {output : Path} {piece : String}
    {chunks : Exec Error (List Bytes)} {disk disk' : Disk κ} {content : Bytes} {mode : Nat}
    (h : (writeSfx host output piece chunks).run disk = (.ok (), disk'))
    (hnode : disk' (host.os.resolve output) = some (.file content mode)) : mode = 0o755 := by
  unfold writeSfx at h
  rcases Program.run_query_bind_eq_ok_iff.mp h with ⟨written, -, h⟩
  rcases Program.run_bind_eq_ok_iff.mp h with ⟨out, created, -, h⟩
  rcases Program.run_bind_eq_ok_iff.mp h with ⟨_, filled, -, h⟩
  rw [if_pos hunix] at h
  exact mode_of_makeExecutable h hnode

/-- On Unix a packing that ends well leaves an executable. -/
theorem mode_of_packSfx (hunix : host.target.unix = true) {input output : Path}
    {level : LevelArgs} {force : Bool} {disk disk' : Disk κ} {content : Bytes} {mode : Nat}
    (h : (packSfx host input output level force).run disk = (.ok (), disk'))
    (hnode : disk' (host.os.resolve output) = some (.file content mode)) : mode = 0o755 := by
  unfold packSfx at h
  rcases Program.run_query_bind_eq_ok_iff.mp h with ⟨raw, -, h⟩
  rcases Program.run_query_bind_eq_ok_iff.mp h with ⟨_, -, h⟩
  rcases Program.run_query_bind_eq_ok_iff.mp h with ⟨name, -, h⟩
  rcases Program.run_query_bind_eq_ok_iff.mp h with ⟨payload, -, h⟩
  rcases Program.run_query_bind_eq_ok_iff.mp h with ⟨_, -, h⟩
  cases htarget : host.target with
  | linux =>
      rw [htarget] at h
      exact mode_of_writeSfx hunix h hnode
  | macos =>
      rw [htarget] at h
      rcases Program.run_query_bind_eq_ok_iff.mp h with ⟨_, -, h⟩
      exact mode_of_writeSfx hunix h hnode
  | windows =>
      rw [htarget] at hunix
      cases hunix
  | otherUnix =>
      rw [htarget] at h
      cases h
  | other =>
      rw [htarget] at h
      cases h

/-- A packing that ends well leaves one new file, in the layout of its target. -/
theorem exists_packing_of_ok (hwrites : host.os.WritesSucceed) {input output : Path}
    {level : LevelArgs} {force : Bool} {disk : Disk κ} {raw : Bytes} {rawMode : Nat}
    {name : String} (hnode : disk (host.os.resolve input) = some (.file raw rawMode))
    (hnamed : host.sanitizeName input = .ok name)
    (hpacked : ((packSfx host input output level force).run disk).1 = .ok ()) :
    ∃ (p : Packing host disk input output level force) (mode : Nat),
      ((packSfx host input output level force).run disk).2 =
        disk.put (host.os.resolve output) p.file mode ∧ p.raw = raw ∧ p.name = name := by
  rcases packSfx_cases hwrites input output level force disk with
    hrefused | ⟨p, mode, hput, -⟩
  · exact (Program.not_refused_of_ok hpacked hrefused).elim
  · have hread := p.read
    rw [hnode] at hread
    cases hread
    exact ⟨p, mode, hput, rfl, Except.ok.inj (p.named.symm.trans hnamed)⟩

/-- A packing that ends well leaves one new file, executable on Unix; and wherever a later disk
holds that file, under whatever path, it passes its test, its listing names the input, and
unpacking it to a free place leaves the input's bytes there and changes nothing else. -/
theorem pack_then_restore (hround : host.backend.RoundTrip)
    (hembedded : host.embedded.head? ≠ some 0x55) (hcalm : host.os.Calm) {input output : Path}
    {level : LevelArgs} {force : Bool} {disk : Disk κ} {raw : Bytes} {rawMode : Nat}
    {name : String} (hnode : disk (host.os.resolve input) = some (.file raw rawMode))
    (hnamed : host.sanitizeName input = .ok name) (hname : (asBytes name).length ≤ maxNameLen)
    (hpacked : ((packSfx host input output level force).run disk).1 = .ok ()) :
    ∃ file mode,
      ((packSfx host input output level force).run disk).2 =
        disk.put (host.os.resolve output) file mode ∧
      (host.target.unix = true → mode = 0o755) ∧
      ∀ (later : Disk κ) (path : Path) (mode' : Nat),
        later (host.os.resolve path) = some (.file file mode') → file.length ≤ isizeMax →
          Restores host later path ⟨name, level.codec⟩ raw := by
  rcases exists_packing_of_ok hcalm.writes hnode hnamed hpacked with
    ⟨p, mode, hput, hraw, hsame⟩
  refine ⟨p.file, mode, hput, ?_, ?_⟩
  · intro hunix
    exact mode_of_packSfx hunix (Prod.ext hpacked hput) (Disk.put_same _ _ p.file mode)
  · intro later path mode' hlater hsize
    have hback := p.readsBack hround hembedded (by rw [hsame]; exact hname)
    rw [hraw, hsame] at hback
    have hoffset : host.embedded.length ≠ 0 := fun hzero =>
      p.embedded_ne_nil (List.eq_nil_of_length_eq_zero hzero)
    exact .of_readsBack hcalm hback hoffset hlater hsize

end Packing

end RoundTrip

/-- `hi.txt`, packed and then removed, comes back from `hi.txt.upxz`. -/
theorem pack_then_restore_hi :
    let made := (packSfx linuxHost (asBytes "hi.txt") (asBytes "hi.txt.upxz") LevelArgs.default
      false).run hiDisk
    ∃ file, made.2 (asBytes "hi.txt.upxz") = some (.file file 0o755) ∧
      ∀ later : Disk Path, later (asBytes "hi.txt.upxz") = some (.file file 0o755) →
        later (asBytes "hi.txt") = none → file.length ≤ isizeMax →
          test linuxHost (asBytes "hi.txt.upxz") later = .ok () ∧
          (unpack linuxHost (asBytes "hi.txt.upxz") false).run later =
            (.ok (), later.put (asBytes "hi.txt") (asBytes "hi") 0o644) := by
  intro made
  have hround : linuxHost.backend.RoundTrip := storedBackend_roundTrip
  have hnode : hiDisk (linuxHost.os.resolve (asBytes "hi.txt")) =
      some (.file (asBytes "hi") 0o644) := rfl
  have hname : linuxHost.sanitizeName (asBytes "hi.txt") = .ok "hi.txt" := by decide
  have hpacked : made.1 = .ok () := rfl
  rcases pack_then_restore hround (by decide) plainOs_calm hnode hname (by decide) hpacked with
    ⟨file, mode, hput, hmode, hrestores⟩
  rw [hmode rfl] at hput
  have hmade : made.2 (asBytes "hi.txt.upxz") = some (.file file 0o755) := by
    rw [hput]
    exact Disk.put_same _ _ _ _
  refine ⟨file, hmade, fun later hlater hgone hsize => ?_⟩
  have hback := hrestores later (asBytes "hi.txt.upxz") 0o755 hlater hsize
  refine ⟨hback.tests, ?_⟩
  have hfree : pathExists linuxHost.os (asBytes "hi.txt") later = false := by
    simp [pathExists, metadata, linuxHost, plainOs, hgone]
  have hout : linuxHost.unpackOutput (asBytes "hi.txt.upxz") "hi.txt" = .ok (asBytes "hi.txt") := by
    decide
  have hunpacked := hback.unpacks (asBytes "hi.txt") false hout (by simp [hfree])
    (by simp [linuxHost, plainOs, hgone])
  have hplain : (linuxHost.target.unix && looksExecutable (asBytes "hi")) = false := by decide
  rw [hunpacked, Host.restoredMode, hplain]
  simp [Os.modeAt, linuxHost, plainOs, hgone]

end Cli
end Upxz
