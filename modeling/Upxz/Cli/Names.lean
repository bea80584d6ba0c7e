import Upxz.Machine.WindowsPath
import Upxz.Format.Header

/-!
# Cli - Stored names and output paths

The packer stores the last component of its input path; the unpacker derives
its output path from its own input path or, failing that, from the stored name.
The definitions follow `sanitize_name` in `format.rs` and the two output path
functions of `main.rs`.

Main results:

- Theorem `sanitizeName_eq_ok_iff`: a path's name is taken when it is UTF-8 and
  has no backslash.
- Theorem `sanitizeName_idem`: a sanitized name is its own sanitized name.
- Theorem `unpackOutput_contained`: no stored name moves the output out of the
  current directory.
- Theorem `unpackOutputWindows_contained_iff`: on Windows the output stays there exactly when
  the name begins with no drive.
- Theorem `unpackOutput_defaultPackOutput_iff`: unpacking the default output leads
  back to the packed path exactly when that path is UTF-8.
-/

namespace Upxz
namespace Cli

open Machine Format

/-! ## Names -/

/-- The byte `\\`. -/
def backslash : UInt8 := 0x5C

/-- What a path's last component is, as a name to store. -/
def sanitizeLast (last : Option Bytes) : Exec Error String :=
  match last with
  | none => bail "input path has no file name component"
  | some file =>
      match fromUtf8 file with
      | .error _ => bail "input file name is not valid UTF-8"
      | .ok name => do
          ensure (name ≠ "") ["file name is empty"]
          ensure (asciiChar slash ∉ name.toList ∧ asciiChar backslash ∉ name.toList)
            ["file name must not contain a path separator"]
          ensure (name ≠ "." ∧ name ≠ "..") ["file name must not be a directory entry"]
          return name

/-- Last component of a Unix path as a name to store. -/
def sanitizeName (path : Path) : Exec Error String :=
  sanitizeLast (fileName path)

/-- Last component of a Windows path as a name to store. -/
def sanitizeNameWindows (path : Path) : Exec Error String :=
  sanitizeLast (WindowsPath.ofText path).fileName

example : sanitizeNameWindows (asBytes "C:\\tools\\myapp.exe") = .ok "myapp.exe" := by decide

/-- The name of a direct child of the current directory, without a backslash. -/
structure ChildName (name : Bytes) : Prop extends NormalName name where
  no_backslash : backslash ∉ name

theorem asBytes_eq_iff {name text : String} {bytes : Bytes} (h : asBytes text = bytes) :
    name = text ↔ asBytes name = bytes := by
  rw [← h]
  exact ⟨congrArg asBytes, fun hsame => asBytes_injective hsame⟩

/-- A last component is taken exactly when it is UTF-8 and names a direct child. -/
theorem sanitizeLast_eq_ok_iff {last : Option Bytes} {name : String} :
    sanitizeLast last = .ok name ↔ last = some (asBytes name) ∧ ChildName (asBytes name) := by
  have hslash : asciiChar slash ∈ name.toList ↔ slash ∈ asBytes name :=
    (ascii_mem_asBytes_iff (by decide)).symm
  have hback : asciiChar backslash ∈ name.toList ↔ backslash ∈ asBytes name :=
    (ascii_mem_asBytes_iff (by decide)).symm
  have hdot : name = "." ↔ asBytes name = [dot] := asBytes_eq_iff (by decide)
  have hdotdot : name = ".." ↔ asBytes name = [dot, dot] := asBytes_eq_iff (by decide)
  constructor
  · intro hok
    unfold sanitizeLast at hok
    split at hok
    · cases hok
    · rename_i file
      split at hok
      · cases hok
      · rename_i text htext
        simp only [ensure_bind_eq_ok] at hok
        rcases hok with ⟨hempty, hseparators, hentries, hname⟩
        cases hname
        rw [hslash, hback] at hseparators
        rw [ne_eq, ne_eq, hdot, hdotdot] at hentries
        refine ⟨by rw [fromUtf8_eq_ok_iff.mp htext], ?_⟩
        exact
          { ne_nil := fun hnil => hempty (asBytes_eq_nil_iff.mp hnil)
            no_slash := hseparators.1
            ne_dot := hentries.1
            ne_dotdot := hentries.2
            no_backslash := hseparators.2 }
  · intro h
    rcases h with ⟨rfl, hchild⟩
    have hempty : name ≠ "" := fun hname =>
      hchild.ne_nil (asBytes_eq_nil_iff.mpr hname)
    have hseparators : asciiChar slash ∉ name.toList ∧ asciiChar backslash ∉ name.toList := by
      rw [hslash, hback]
      exact ⟨hchild.no_slash, hchild.no_backslash⟩
    have hentries : name ≠ "." ∧ name ≠ ".." := by
      rw [ne_eq, ne_eq, hdot, hdotdot]
      exact ⟨hchild.ne_dot, hchild.ne_dotdot⟩
    unfold sanitizeLast
    simp only [fromUtf8_asBytes]
    rw [ensure_of _ hempty, ok_bind, ensure_of _ hseparators, ok_bind, ensure_of _ hentries]
    rfl

/-- The checks return or report an error. -/
theorem sanitizeLast_clean (last : Option Bytes) : Clean (sanitizeLast last) := by
  unfold sanitizeLast
  split
  · exact clean_err _
  · split
    · exact clean_err _
    · refine Clean.ensure_bind fun _ => Clean.ensure_bind fun _ => Clean.ensure_bind fun _ => ?_
      exact clean_ok _

/-- A path's name is taken exactly when it is UTF-8 and has no backslash; the
other checks hold of every last component. -/
theorem sanitizeName_eq_ok_iff {path : Path} {name : String} :
    sanitizeName path = .ok name ↔
      fileName path = some (asBytes name) ∧ backslash ∉ asBytes name := by
  rw [sanitizeName, sanitizeLast_eq_ok_iff]
  constructor
  · intro h
    exact ⟨h.1, h.2.no_backslash⟩
  · intro h
    exact ⟨h.1, { normalName_of_fileName h.1 with no_backslash := h.2 }⟩

/-- The sanitizer returns or reports an error. -/
theorem sanitizeName_clean (path : Path) : Clean (sanitizeName path) :=
  sanitizeLast_clean _

/-- A sanitized name names a direct child of the current directory. -/
theorem childName_of_sanitizeName {path : Path} {name : String}
    (h : sanitizeName path = .ok name) : ChildName (asBytes name) :=
  (sanitizeLast_eq_ok_iff.mp h).2

/-- A sanitized name is its own sanitized name. -/
theorem sanitizeName_idem {path : Path} {name : String} (h : sanitizeName path = .ok name) :
    sanitizeName (asBytes name) = .ok name := by
  have hchild := childName_of_sanitizeName h
  exact sanitizeName_eq_ok_iff.mpr
    ⟨fileName_of_normalName hchild.toNormalName, hchild.no_backslash⟩

/-! ## Output paths -/

/-- `.upxz`. -/
def upxzSuffix : Bytes := asBytes ".upxz"

/-- Default pack output: the input path with `.upxz` appended. -/
def defaultPackOutput (input : Path) : Path :=
  input ++ upxzSuffix

/-- `str::strip_suffix`, on the bytes of the string. -/
def stripSuffix (s suffix : Bytes) : Option Bytes :=
  if suffix <:+ s then some (s.take (s.length - suffix.length)) else none

/-- Unpack output: the input path less `.upxz`, or else the stored name as it is sanitized. -/
def unpackOutputBy (sanitize : Path → Exec Error String) (input : Path) (headerName : String) :
    Exec Error Path :=
  match stripSuffix (asBytes (toStringLossy input)) upxzSuffix with
  | some stripped => .ok stripped
  | none => do
      let name ← sanitize (asBytes headerName)
      return asBytes name

/-- Unpack output on Unix. -/
def unpackOutput (input : Path) (headerName : String) : Exec Error Path :=
  unpackOutputBy sanitizeName input headerName

/-- Unpack output on Windows. -/
def unpackOutputWindows (input : Path) (headerName : String) : Exec Error Path :=
  unpackOutputBy sanitizeNameWindows input headerName

theorem unpackOutputBy_clean {sanitize : Path → Exec Error String}
    (h : ∀ path, Clean (sanitize path)) (input : Path) (headerName : String) :
    Clean (unpackOutputBy sanitize input headerName) := by
  unfold unpackOutputBy
  cases stripSuffix (asBytes (toStringLossy input)) upxzSuffix with
  | some stripped => exact clean_ok stripped
  | none => exact (h _).bind fun _ _ => clean_ok _

theorem upxzSuffix_ascii : ∀ a ∈ upxzSuffix, a.toNat < 0x80 := by
  have hall : upxzSuffix.all (fun a => decide (a.toNat < 0x80)) = true := by decide
  intro a ha
  exact of_decide_eq_true (List.all_eq_true.mp hall a ha)

/-- The lossy reading of a path ends in `.upxz` exactly when the path does. -/
theorem stripSuffix_lossy (input : Path) :
    stripSuffix (asBytes (toStringLossy input)) upxzSuffix =
      if upxzSuffix <:+ input then
        some ((asBytes (toStringLossy input)).take
          ((asBytes (toStringLossy input)).length - upxzSuffix.length))
      else none := by
  unfold stripSuffix
  by_cases hsuffix : upxzSuffix <:+ input
  · rw [if_pos hsuffix, if_pos ((ascii_suffix_lossy_iff upxzSuffix_ascii).mpr hsuffix)]
  · have hlossy : ¬upxzSuffix <:+ asBytes (toStringLossy input) := fun h =>
      hsuffix ((ascii_suffix_lossy_iff upxzSuffix_ascii).mp h)
    rw [if_neg hsuffix, if_neg hlossy]

section Output

variable {sanitize : Path → Exec Error String} {input : Path}

/-- With a `.upxz` input path the stored name is not looked at. -/
theorem unpackOutputBy_of_suffix (h : upxzSuffix <:+ input) (headerName : String) :
    unpackOutputBy sanitize input headerName =
      .ok ((asBytes (toStringLossy input)).take
        ((asBytes (toStringLossy input)).length - upxzSuffix.length)) := by
  rw [unpackOutputBy, stripSuffix_lossy, if_pos h]

theorem unpackOutputBy_of_not_suffix (h : ¬upxzSuffix <:+ input) (headerName : String) :
    unpackOutputBy sanitize input headerName = (do
      let name ← sanitize (asBytes headerName)
      return asBytes name) := by
  rw [unpackOutputBy, stripSuffix_lossy, if_neg h]

end Output

/-- A stored name cannot choose where the unpacker writes.  With a `.upxz` input path
the output path does not depend on the stored name; otherwise the unpacker refuses the
name, or its output path is one normal component without a backslash; and a name that
the packer's own sanitizer produced comes back as that component. -/
theorem unpackOutput_contained (input : Path) :
    (upxzSuffix <:+ input → ∃ out, ∀ headerName, unpackOutput input headerName = .ok out) ∧
    (¬upxzSuffix <:+ input → ∀ headerName,
      (∃ messages, unpackOutput input headerName = .error (.err messages)) ∨
        ∃ out, unpackOutput input headerName = .ok out ∧ ChildName out ∧
          components out = [.normal out]) ∧
    (¬upxzSuffix <:+ input → ∀ path name, sanitizeName path = .ok name →
      unpackOutput input name = .ok (asBytes name)) := by
  refine ⟨?_, ?_, ?_⟩
  · intro hsuffix
    exact ⟨_, unpackOutputBy_of_suffix hsuffix⟩
  · intro hsuffix headerName
    rw [unpackOutput, unpackOutputBy_of_not_suffix hsuffix]
    rcases sanitizeName_clean (asBytes headerName) with ⟨name, hname⟩ | ⟨messages, herror⟩
    · right
      have hchild := childName_of_sanitizeName hname
      refine ⟨asBytes name, ?_, hchild, components_of_normalName hchild.toNormalName⟩
      rw [hname, ok_bind]
      rfl
    · left
      exact ⟨messages, by rw [herror, error_bind]⟩
  · intro hsuffix path name hname
    rw [unpackOutput, unpackOutputBy_of_not_suffix hsuffix, sanitizeName_idem hname, ok_bind]
    rfl

/-- An input path without `.upxz` and a stored name that climbs out: the output is
its last component. -/
theorem unpackOutput_contained_dotdot :
    (∃ out, ∀ headerName, unpackOutput (asBytes "a.upxz") headerName = .ok out) ∧
      ((∃ messages, unpackOutput (asBytes "a.bin") "../../etc/passwd" =
          .error (.err messages)) ∨
        ∃ out, unpackOutput (asBytes "a.bin") "../../etc/passwd" = .ok out ∧ ChildName out ∧
          components out = [.normal out]) ∧
      unpackOutput (asBytes "a.bin") "passwd" = .ok (asBytes "passwd") :=
  ⟨(unpackOutput_contained (asBytes "a.upxz")).1 (by decide),
    (unpackOutput_contained (asBytes "a.bin")).2.1 (by decide) "../../etc/passwd",
    (unpackOutput_contained (asBytes "a.bin")).2.2 (by decide) (asBytes "/etc/passwd") "passwd"
      (by decide)⟩

/-- On Windows the sanitizer lets a colon pass: a name that it accepts is a child of every
directory it is joined to exactly when it does not begin with a drive. -/
theorem unpackOutputWindows_contained_iff {input : Path} (hsuffix : ¬upxzSuffix <:+ input)
    {headerName : String} {out : Path} (h : unpackOutputWindows input headerName = .ok out) :
    ChildName out ∧
      ((∀ dir : WindowsPath, WindowsPath.IsChild dir out (dir.join (WindowsPath.ofText out))) ↔
        WindowsPath.parseDrive out = none) := by
  rw [unpackOutputWindows, unpackOutputBy_of_not_suffix hsuffix] at h
  rcases bind_eq_ok_iff.mp h with ⟨name, hname, hout⟩
  cases hout
  have hchild : ChildName (asBytes name) := (sanitizeLast_eq_ok_iff.mp hname).2
  have hflat : WindowsPath.FlatName (asBytes name) :=
    { hchild.toNormalName with no_backslash := hchild.no_backslash }
  exact ⟨hchild, hflat.isChild_join_iff⟩

/-- Two stored names and an input path without `.upxz`: one leads to the current directory, the
other to the drive `f`. -/
theorem unpackOutputWindows_contained_drive :
    (∀ dir : WindowsPath,
      WindowsPath.IsChild dir (asBytes "a") (dir.join (WindowsPath.ofText (asBytes "a")))) ∧
    unpackOutputWindows (asBytes "a.bin") "x\\f:a" = .ok (asBytes "f:a") ∧
    ¬∀ dir : WindowsPath,
      WindowsPath.IsChild dir (asBytes "f:a") (dir.join (WindowsPath.ofText (asBytes "f:a"))) := by
  have hsuffix : ¬upxzSuffix <:+ asBytes "a.bin" := by decide
  have hplain : unpackOutputWindows (asBytes "a.bin") "C:\\x\\a" = .ok (asBytes "a") := by decide
  have hdrive : unpackOutputWindows (asBytes "a.bin") "x\\f:a" = .ok (asBytes "f:a") := by decide
  refine ⟨?_, hdrive, ?_⟩
  · exact (unpackOutputWindows_contained_iff hsuffix hplain).2.mpr (by decide)
  · exact mt (unpackOutputWindows_contained_iff hsuffix hdrive).2.mp (by decide)

/-- What the unpacker makes of a default pack output: the lossy reading of the path that
was packed, whatever name is stored. -/
theorem unpackOutput_defaultPackOutput (path : Path) (headerName : String) :
    unpackOutput (defaultPackOutput path) headerName = .ok (asBytes (toStringLossy path)) := by
  have hsuffix : upxzSuffix <:+ defaultPackOutput path := List.suffix_append _ _
  rw [unpackOutput, unpackOutputBy_of_suffix hsuffix, defaultPackOutput,
    lossy_append_ascii path upxzSuffix upxzSuffix_ascii, List.length_append,
    Nat.add_sub_cancel, List.take_left]

/-- Packing a path to its default output and unpacking that leads back to the path
exactly when the path is UTF-8 as a whole. -/
theorem unpackOutput_defaultPackOutput_iff (path : Path) (headerName : String) :
    unpackOutput (defaultPackOutput path) headerName = .ok path ↔ IsUtf8 path := by
  rw [unpackOutput_defaultPackOutput, Except.ok.injEq]
  exact lossy_eq_self_iff

/-- A file `a` in a directory named by the byte `0xFF` is packed, and unpacked into the
directory named by U+FFFD. -/
theorem unpackOutput_defaultPackOutput_ff :
    sanitizeName [0xFF, 0x2F, 0x61] = .ok "a" ∧ 0 ∉ ([0xFF, 0x2F, 0x61] : Path) ∧
      unpackOutput (defaultPackOutput [0xFF, 0x2F, 0x61]) "a" =
        .ok [0xEF, 0xBF, 0xBD, 0x2F, 0x61] ∧
      unpackOutput (defaultPackOutput [0xFF, 0x2F, 0x61]) "a" ≠ .ok [0xFF, 0x2F, 0x61] := by
  have hout : unpackOutput (defaultPackOutput [0xFF, 0x2F, 0x61]) "a" =
      .ok [0xEF, 0xBF, 0xBD, 0x2F, 0x61] := by
    rw [unpackOutput_defaultPackOutput]
    decide
  refine ⟨by decide, by decide, hout, ?_⟩
  rw [hout]
  decide

end Cli
end Upxz
