import Upxz.Bin.TarPath
import Upxz.Cli.Commands

/-!
# Bin - Running one entry of an archive

`upxz --bin` scans a `.tar.zst` archive for one entry and hands its bytes to the
system's exec.  The definitions follow `bin_run.rs` up to that call; the zstd decoder
and the tar reader are the crates', and deliver the entries in order.

Main results:

- Theorem `findEntry_delivered`: on an archive read without error the search stops at
  the first entry under the requested path, whatever its type.
- Theorem `selectsFirst_iff`: it finds the first regular file under that path exactly
  when no entry of another type comes before it.
- Theorem `scanEntries_eq_ok_iff`: on any archive it returns the bytes of a regular file
  exactly when it comes to it without an error.
- Theorem `run_eq_ok_iff`: on such an archive `--bin` hands the found bytes to exec.
- Theorem `run_respell`: it hands over the same bytes under every spelling of the inner
  path that normalizes alike.
-/

namespace Upxz
namespace Bin

open Machine Format Cli

/-! ## The search -/

/-- An entry as the tar reader delivers it.  Its path may not decode, and reading its
content may fail. -/
structure TarEntry (τ : Type) where
  path : Except String Path
  entryType : τ
  content : Except String Bytes

/-- The entries of an archive, in order; reading one may fail, and so may starting. -/
abbrev Archive (τ : Type) := Except String (List (Except String (TarEntry τ)))

/-- The crates: starting the zstd decoder and the tar reader on what a file reads as, what
the reader knows about entry types, and the `{:?}` of types and strings. -/
structure ArchiveLibrary (τ : Type) where
  newDecoder : Except String Bytes → Except String (Archive τ)
  isFile : τ → Bool
  debugType : τ → String
  debugStr : String → String

section Search

variable {τ : Type} (lib : ArchiveLibrary τ) (want : String)

/-- The loop of `find_entry`, on the entries that are left. -/
def scanEntries : List (Except String (TarEntry τ)) → Exec Error Bytes
  | [] => bail s!"no tar entry named {lib.debugStr want} (looked for regular file)"
  | item :: rest => do
      let entry ← libraryContext item "tar: error while reading an entry"
      let headerPath ← libraryContext entry.path "tar: entry has an invalid path"
      let got := normalizeTarPath (display headerPath)
      if got ≠ want then
        let _ ← libraryContext entry.content "tar: error while skipping an entry"
        scanEntries rest
      else
        ensure (lib.isFile entry.entryType = true)
          [s!"entry {lib.debugStr want} is not a regular file " ++
            s!"(type {lib.debugType entry.entryType}); --bin only runs files"]
        libraryContext entry.content "tar: error while reading the matched entry"

/-- Read tar entries one at a time and return the bytes of the one that is wanted. -/
def findEntry (tar : Archive τ) : Exec Error Bytes :=
  match tar with
  | .error e => .error (.err [e])
  | .ok entries => scanEntries lib want entries

end Search

/-! ## The command -/

/-- `argv[0]`: the last component of the inner path, or all of it. -/
def argvZero (innerPath : String) : String :=
  match fileName (asBytes innerPath) with
  | none => innerPath
  | some name =>
      match fromUtf8 name with
      | .ok s => s
      | .error _ => innerPath

/-- The call of `exec_inner` a run arrives at. -/
structure ExecInner where
  name : String
  bytes : Bytes
  trailing : List String
deriving DecidableEq, Repr

/-- `run`, up to `exec_inner`.  The open file is what its path leads to. -/
def run {κ τ : Type} (host : Host κ) (lib : ArchiveLibrary τ) (archive : Path)
    (innerPath : String) (trailing : List String) (disk : Disk κ) : Exec Error ExecInner := do
  ensure (innerPath ≠ "") ["--bin requires a non-empty inner path"]
  let want := normalizeTarPath innerPath
  let f ← libraryContext (openFile host.os archive disk) s!"cannot open archive {display archive}"
  let info ← libraryContext (metadata host.os archive disk)
    s!"cannot stat archive {display archive}"
  ensure (info.isFile = true) [s!"archive {display archive} is not a regular file"]
  let tar ← libraryContext (lib.newDecoder (readToEnd host.os f disk))
    s!"zstd: cannot start decoding {display archive}"
  let innerBytes ← withContext (findEntry lib want tar)
    s!"did not find entry {lib.debugStr want} in {display archive}"
  return ⟨argvZero innerPath, innerBytes, trailing⟩

/-! ## What the search finds -/

/-- An entry that is read without error under a UTF-8 path. -/
structure PlainEntry (τ : Type) where
  path : String
  entryType : τ
  bytes : Bytes

/-- What the reader delivers for such an entry. -/
def PlainEntry.delivered {τ : Type} (entry : PlainEntry τ) : Except String (TarEntry τ) :=
  .ok ⟨.ok (asBytes entry.path), entry.entryType, .ok entry.bytes⟩

/-- An archive whose entries are all delivered without error. -/
def delivered {τ : Type} (entries : List (PlainEntry τ)) : Archive τ :=
  .ok (entries.map PlainEntry.delivered)

section Results

variable {τ : Type} (lib : ArchiveLibrary τ) (want : String)

/-- The entry stands under the wanted path. -/
def PlainEntry.isNamed (entry : PlainEntry τ) : Bool :=
  normalizeTarPath entry.path = want

/-- The entry is a regular file under the wanted path. -/
def PlainEntry.isWanted (entry : PlainEntry τ) : Bool :=
  entry.isNamed want && lib.isFile entry.entryType

variable {lib want}

/-- One step of the loop on an entry under another path. -/
theorem scanEntries_skip {entry : PlainEntry τ} (h : entry.isNamed want = false)
    (rest : List (Except String (TarEntry τ))) :
    scanEntries lib want (entry.delivered :: rest) = scanEntries lib want rest := by
  have hne : normalizeTarPath (display (asBytes entry.path)) ≠ want := by
    rw [display, toStringLossy_asBytes]
    exact of_decide_eq_false h
  rw [scanEntries]
  simp only [PlainEntry.delivered, libraryContext, ok_bind, if_pos hne]

/-- One step of the loop on an entry under the wanted path: it is returned when it is a
regular file, and an error otherwise. -/
theorem scanEntries_stop {entry : PlainEntry τ} (h : entry.isNamed want = true)
    (rest : List (Except String (TarEntry τ))) :
    scanEntries lib want (entry.delivered :: rest) = (do
      ensure (lib.isFile entry.entryType = true)
        [s!"entry {lib.debugStr want} is not a regular file " ++
          s!"(type {lib.debugType entry.entryType}); --bin only runs files"]
      return entry.bytes) := by
  have heq : ¬normalizeTarPath (display (asBytes entry.path)) ≠ want := by
    rw [display, toStringLossy_asBytes]
    exact not_not.mpr (of_decide_eq_true h)
  rw [scanEntries]
  simp only [PlainEntry.delivered, libraryContext, ok_bind, if_neg heq]
  rfl

/-- On an archive read without error the search stops at the first entry under the wanted
path. -/
theorem findEntry_delivered (entries : List (PlainEntry τ)) :
    findEntry lib want (delivered entries) =
      match entries.find? (·.isNamed want) with
      | none => bail s!"no tar entry named {lib.debugStr want} (looked for regular file)"
      | some entry => do
          ensure (lib.isFile entry.entryType = true)
            [s!"entry {lib.debugStr want} is not a regular file " ++
              s!"(type {lib.debugType entry.entryType}); --bin only runs files"]
          return entry.bytes := by
  simp only [findEntry, delivered]
  induction entries with
  | nil => rfl
  | cons entry entries ih =>
      rw [List.map_cons]
      cases hnamed : entry.isNamed want with
      | true => rw [scanEntries_stop hnamed, List.find?_cons_of_pos hnamed]
      | false =>
          rw [scanEntries_skip hnamed, ih, List.find?_cons_of_neg (by rw [hnamed]; decide)]

/-- The search returns bytes exactly when the first entry under the wanted path is a
regular file with these bytes. -/
theorem findEntry_eq_ok_iff {entries : List (PlainEntry τ)} {bytes : Bytes} :
    findEntry lib want (delivered entries) = .ok bytes ↔
      ∃ entry, entries.find? (·.isNamed want) = some entry ∧
        lib.isFile entry.entryType = true ∧ entry.bytes = bytes := by
  rw [findEntry_delivered]
  cases entries.find? (·.isNamed want) with
  | none => simp [bail]
  | some entry =>
      rw [ensure_bind_eq_ok]
      simp [pure, Except.pure]

/-- The first element with one property, if it has another, is the first with both. -/
theorem find?_and_of_find? {α : Type} {p q : α → Bool} {xs : List α} {x : α}
    (h : xs.find? p = some x) (hq : q x = true) :
    xs.find? (fun a => p a && q a) = some x := by
  rcases List.find?_eq_some_iff_append.mp h with ⟨hp, before, after, rfl, hbefore⟩
  refine List.find?_eq_some_iff_append.mpr ⟨by rw [hp, hq]; rfl, before, after, rfl, ?_⟩
  intro a ha
  have hnot : p a = false := by simpa using hbefore a ha
  rw [hnot]
  rfl

/-- The first entry under the wanted path is the first wanted one when it is a regular
file. -/
theorem find?_isWanted_of_isFile {entries : List (PlainEntry τ)} {entry : PlainEntry τ}
    (hfirst : entries.find? (·.isNamed want) = some entry)
    (hfile : lib.isFile entry.entryType = true) :
    entries.find? (·.isWanted lib want) = some entry :=
  find?_and_of_find? hfirst hfile

/-- Where nothing is under the wanted path, nothing is wanted. -/
theorem find?_isWanted_of_none {entries : List (PlainEntry τ)}
    (hnone : entries.find? (·.isNamed want) = none) :
    entries.find? (·.isWanted lib want) = none := by
  rw [List.find?_eq_none] at hnone ⊢
  intro entry hentry
  simp only [PlainEntry.isWanted, Bool.and_eq_true, not_and]
  intro hnamed
  exact (hnone entry hentry hnamed).elim

/-- Where some entry is wanted there is a first wanted one. -/
theorem exists_find?_isWanted {entries : List (PlainEntry τ)} {other : PlainEntry τ}
    (hother : other ∈ entries) (hwanted : other.isWanted lib want = true) :
    ∃ entry, entries.find? (·.isWanted lib want) = some entry := by
  apply Option.isSome_iff_exists.mp
  rw [List.find?_isSome]
  exact ⟨other, hother, hwanted⟩

variable (lib want)

/-- The search succeeds exactly when some entry is a regular file under the wanted path,
and then returns the bytes of the first one. -/
def SelectsFirst (entries : List (PlainEntry τ)) : Prop :=
  ∀ bytes, findEntry lib want (delivered entries) = .ok bytes ↔
    ∃ entry, entries.find? (·.isWanted lib want) = some entry ∧ entry.bytes = bytes

/-- The search selects the first regular file under the wanted path exactly when the first
entry of any type under that path is a regular file, or no regular file is under it. -/
theorem selectsFirst_iff (entries : List (PlainEntry τ)) :
    SelectsFirst lib want entries ↔
      ∀ entry, entries.find? (·.isNamed want) = some entry →
        lib.isFile entry.entryType = true ∨ ∀ other ∈ entries, other.isWanted lib want = false := by
  constructor
  · intro hselects entry hfirst
    by_cases hfile : lib.isFile entry.entryType = true
    · exact Or.inl hfile
    · right
      intro other hother
      by_contra hwanted
      rcases exists_find?_isWanted hother (by simpa using hwanted) with ⟨wanted, hfound⟩
      -- The search stops at `entry`, so it would have to return the bytes of no regular file.
      rcases findEntry_eq_ok_iff.mp ((hselects wanted.bytes).mpr ⟨wanted, hfound, rfl⟩) with
        ⟨stop, hstop, hregular, -⟩
      rw [hfirst] at hstop
      cases hstop
      exact hfile hregular
  · intro hcond bytes
    rw [findEntry_eq_ok_iff]
    cases hfirst : entries.find? (·.isNamed want) with
    | none =>
        rw [find?_isWanted_of_none hfirst]
        simp
    | some entry =>
        rcases hcond entry hfirst with hfile | hnone
        · rw [find?_isWanted_of_isFile hfirst hfile]
          simp [hfile]
        · have hwanted : entries.find? (·.isWanted lib want) = none := by
            rw [List.find?_eq_none]
            intro other hother
            rw [hnone other hother]
            exact Bool.noConfusion
          have hfile : ¬lib.isFile entry.entryType = true := by
            intro hfile
            rw [find?_isWanted_of_isFile hfirst hfile] at hwanted
            cases hwanted
          rw [hwanted]
          simp [hfile]

end Results

/-! ## The search on any archive -/

section AnyArchive

variable {τ : Type} (lib : ArchiveLibrary τ) (want : String)

/-- An entry that is read without error under another path. -/
def Skipped (item : Except String (TarEntry τ)) : Prop :=
  ∃ entry path content, item = .ok entry ∧ entry.path = .ok path ∧
    normalizeTarPath (display path) ≠ want ∧ entry.content = .ok content

/-- A regular file that reads as `bytes` under the wanted path. -/
def Matched (item : Except String (TarEntry τ)) (bytes : Bytes) : Prop :=
  ∃ entry path, item = .ok entry ∧ entry.path = .ok path ∧
    normalizeTarPath (display path) = want ∧ lib.isFile entry.entryType = true ∧
    entry.content = .ok bytes

/-- The search comes to such a file without an error.  What is behind it does not count. -/
def Selects (items : List (Except String (TarEntry τ))) (bytes : Bytes) : Prop :=
  ∃ before item after, items = before ++ item :: after ∧
    (∀ other ∈ before, Skipped want other) ∧ Matched lib want item bytes

variable {lib want}

/-- One step of the loop: it goes on past an entry that is skipped, and returns what a
matched one holds. -/
theorem scanEntries_cons_eq_ok_iff {item : Except String (TarEntry τ)}
    {rest : List (Except String (TarEntry τ))} {bytes : Bytes} :
    scanEntries lib want (item :: rest) = .ok bytes ↔
      Skipped want item ∧ scanEntries lib want rest = .ok bytes ∨ Matched lib want item bytes := by
  rw [scanEntries]
  simp only [bind_eq_ok_iff, libraryContext_eq_ok_iff]
  constructor
  · intro h
    rcases h with ⟨entry, hitem, path, hpath, h⟩
    split_ifs at h with hgot
    · rcases bind_eq_ok_iff.mp h with ⟨content, hcontent, h⟩
      rw [libraryContext_eq_ok_iff] at hcontent
      exact Or.inl ⟨⟨entry, path, content, hitem, hpath, hgot, hcontent⟩, h⟩
    · rw [ensure_bind_eq_ok, libraryContext_eq_ok_iff] at h
      exact Or.inr ⟨entry, path, hitem, hpath, not_not.mp hgot, h.1, h.2⟩
  · intro h
    rcases h with ⟨⟨entry, path, content, hitem, hpath, hgot, hcontent⟩, hrest⟩ |
      ⟨entry, path, hitem, hpath, hgot, hfile, hcontent⟩
    · refine ⟨entry, hitem, path, hpath, ?_⟩
      rw [if_pos hgot]
      exact bind_eq_ok_iff.mpr ⟨content, libraryContext_eq_ok_iff.mpr hcontent, hrest⟩
    · refine ⟨entry, hitem, path, hpath, ?_⟩
      rw [if_neg (not_not.mpr hgot), ensure_bind_eq_ok]
      exact ⟨hfile, libraryContext_eq_ok_iff.mpr hcontent⟩

/-- Whatever the archive delivers, the search returns bytes exactly when it selects them. -/
theorem scanEntries_eq_ok_iff {items : List (Except String (TarEntry τ))} {bytes : Bytes} :
    scanEntries lib want items = .ok bytes ↔ Selects lib want items bytes := by
  induction items with
  | nil => simp [scanEntries, bail, Selects]
  | cons item rest ih =>
      rw [scanEntries_cons_eq_ok_iff, ih]
      constructor
      · intro h
        rcases h with ⟨hskipped, before, found, after, rfl, hbefore, hmatched⟩ | hmatched
        · refine ⟨item :: before, found, after, rfl, ?_, hmatched⟩
          exact List.forall_mem_cons.mpr ⟨hskipped, hbefore⟩
        · exact ⟨[], item, rest, rfl, by simp, hmatched⟩
      · intro h
        rcases h with ⟨before, found, after, hsplit, hbefore, hmatched⟩
        cases before with
        | nil =>
            cases hsplit
            exact Or.inr hmatched
        | cons first before =>
            cases hsplit
            rw [List.forall_mem_cons] at hbefore
            exact Or.inl ⟨hbefore.1, before, found, after, rfl, hbefore.2, hmatched⟩

variable {κ : Type} {host : Host κ}

/-- An archive from which `--bin` reads these bytes. -/
structure Offers (host : Host κ) (lib : ArchiveLibrary τ) (archive : Path) (innerPath : String)
    (disk : Disk κ) (bytes : Bytes) : Prop where
  named : innerPath ≠ ""
  stands : ∃ info, metadata host.os archive disk = .ok info ∧ info.isFile = true
  reads : ∃ f items, openFile host.os archive disk = .ok f ∧
    lib.newDecoder (readToEnd host.os f disk) = .ok (.ok items) ∧
    Selects lib (normalizeTarPath innerPath) items bytes

/-- Up to exec a run comes exactly with what the archive offers. -/
theorem run_eq_ok_iff_offers {archive : Path} {innerPath : String} {trailing : List String}
    {disk : Disk κ} {call : ExecInner} :
    run host lib archive innerPath trailing disk = .ok call ↔
      Offers host lib archive innerPath disk call.bytes ∧ call.name = argvZero innerPath ∧
        call.trailing = trailing := by
  unfold run
  simp only [bind_eq_ok_iff, libraryContext_eq_ok_iff, withContext_eq_ok_iff, pure, Except.pure,
    Except.ok.injEq]
  constructor
  · intro h
    rcases h with
      ⟨⟨⟩, hinner, f, hopen, info, hinfo, ⟨⟩, hfile, tar, htar, bytes, hfound, hcall⟩
    rw [ensure_eq_ok_iff] at hinner hfile
    cases hcall
    cases tar with
    | error e => cases hfound
    | ok items =>
        exact ⟨⟨hinner, ⟨info, hinfo, hfile⟩, f, items, hopen, htar,
          scanEntries_eq_ok_iff.mp hfound⟩, rfl, rfl⟩
  · intro h
    rcases h with ⟨⟨hinner, ⟨info, hinfo, hfile⟩, f, items, hopen, htar, hselects⟩, hname, hargs⟩
    refine ⟨(), ensure_eq_ok_iff.mpr hinner, f, hopen, info, hinfo, (),
      ensure_eq_ok_iff.mpr hfile, .ok items, htar, call.bytes,
      scanEntries_eq_ok_iff.mpr hselects, ?_⟩
    rw [← hname, ← hargs]

end AnyArchive

section Clean

variable {κ τ : Type} {host : Host κ} {lib : ArchiveLibrary τ}

/-- The search returns or reports an error. -/
theorem scanEntries_clean (want : String) (items : List (Except String (TarEntry τ))) :
    Clean (scanEntries lib want items) := by
  induction items with
  | nil => exact clean_err _
  | cons item rest ih =>
      rw [scanEntries]
      refine (libraryContext_clean ..).bind fun entry _ => ?_
      refine (libraryContext_clean ..).bind fun headerPath _ => ?_
      dsimp only
      split_ifs
      · exact (libraryContext_clean ..).bind fun _ _ => ih
      · exact Clean.ensure_bind fun _ => libraryContext_clean ..

/-- So does the command, up to exec. -/
theorem run_clean (archive : Path) (innerPath : String) (trailing : List String)
    (disk : Disk κ) : Clean (run host lib archive innerPath trailing disk) := by
  unfold run
  refine Clean.ensure_bind fun _ => ?_
  refine (libraryContext_clean ..).bind fun f _ => ?_
  refine (libraryContext_clean ..).bind fun info _ => ?_
  refine Clean.ensure_bind fun _ => ?_
  refine (libraryContext_clean ..).bind fun tar _ => ?_
  refine (withContext_clean ?_ _).bind fun innerBytes _ => clean_ok _
  cases tar with
  | error e => exact clean_err _
  | ok items => exact scanEntries_clean _ items

end Clean

/-- Entry types enough for a small archive. -/
inductive EntryType where
  | regular
  | symlink
  | directory
deriving DecidableEq, Repr

/-- `EntryType` with the names the tar reader prints. -/
def EntryType.debug : EntryType → String
  | .regular => "Regular"
  | .symlink => "Symlink"
  | .directory => "Directory"

/-- A library that knows these types and no compressed data. -/
def smallLibrary : ArchiveLibrary EntryType where
  newDecoder _ := .error "Unknown frame descriptor"
  isFile t := t = .regular
  debugType := EntryType.debug
  debugStr s := "\"" ++ s ++ "\""

/-- An archive in which `bin/hello` is a symbolic link first and a regular file later, as
after an update that appends. -/
def updatedArchive : List (PlainEntry EntryType) :=
  [⟨"./bin/hello", .symlink, []⟩, ⟨"bin/hello", .regular, asBytes "hello"⟩]

/-- The search stops at the link and never comes to the regular file. -/
theorem updatedArchive_not_selectsFirst :
    ¬SelectsFirst smallLibrary "bin/hello" updatedArchive ∧
      findEntry smallLibrary "bin/hello" (delivered updatedArchive) =
        .error (.err ["entry \"bin/hello\" is not a regular file (type Symlink); " ++
          "--bin only runs files"]) := by
  have herror : findEntry smallLibrary "bin/hello" (delivered updatedArchive) =
      .error (.err ["entry \"bin/hello\" is not a regular file (type Symlink); " ++
        "--bin only runs files"]) := by
    decide
  refine ⟨?_, herror⟩
  intro hselects
  have hok := (hselects (asBytes "hello")).mpr
    ⟨⟨"bin/hello", .regular, asBytes "hello"⟩, rfl, rfl⟩
  rw [herror] at hok
  cases hok

/-! ## What reaches exec -/

section Runs

variable {κ τ : Type} {host : Host κ} {lib : ArchiveLibrary τ} {archive : Path}
  {disk : Disk κ} {f : κ} {content : Bytes} {mode : Nat} {entries : List (PlainEntry τ)}

/-- On a regular file that decodes to an archive read without error, `--bin` hands over the
bytes of the first entry under the inner path, if that is a regular file. -/
theorem run_eq_ok_iff (hopen : openFile host.os archive disk = .ok f)
    (hstat : metadata host.os archive disk = .ok (.file content mode))
    (hdecode : lib.newDecoder (readToEnd host.os f disk) = .ok (delivered entries))
    {innerPath : String} (hinner : innerPath ≠ "") {trailing : List String} {bytes : Bytes} :
    run host lib archive innerPath trailing disk =
        .ok ⟨argvZero innerPath, bytes, trailing⟩ ↔
      ∃ entry, entries.find? (·.isNamed (normalizeTarPath innerPath)) = some entry ∧
        lib.isFile entry.entryType = true ∧ entry.bytes = bytes := by
  have hfile : (Node.file content mode).isFile = true := rfl
  unfold run
  rw [ensure_of _ hinner, ok_bind, hopen, hstat]
  simp only [libraryContext, ok_bind, ensure_of _ hfile, hdecode]
  rw [bind_eq_ok_iff, ← findEntry_eq_ok_iff]
  simp only [withContext_eq_ok_iff, pure, Except.pure, Except.ok.injEq, ExecInner.mk.injEq,
    true_and, and_true, exists_eq_right]

/-- Two inner paths that normalize alike lead to the same bytes. -/
theorem run_respell (hopen : openFile host.os archive disk = .ok f)
    (hstat : metadata host.os archive disk = .ok (.file content mode))
    (hdecode : lib.newDecoder (readToEnd host.os f disk) = .ok (delivered entries))
    {innerPath other : String} (hinner : innerPath ≠ "") (hother : other ≠ "")
    (hsame : normalizeTarPath innerPath = normalizeTarPath other) {trailing : List String}
    {bytes : Bytes} :
    run host lib archive innerPath trailing disk =
        .ok ⟨argvZero innerPath, bytes, trailing⟩ ↔
      run host lib archive other trailing disk = .ok ⟨argvZero other, bytes, trailing⟩ := by
  rw [run_eq_ok_iff hopen hstat hdecode hinner, run_eq_ok_iff hopen hstat hdecode hother, hsame]

end Runs

end Bin
end Upxz
