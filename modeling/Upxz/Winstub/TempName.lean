import Upxz.Cli.Names
import Upxz.Machine.Trim
import Upxz.Machine.WindowsPush

/-!
# Winstub - The name of the temp file

The Windows stub writes the restored program to a file of its own under `%TEMP%`, named
after the stored name: every surprising character is replaced, the extension is cut off,
a fallback stands in for an empty rest, and dots at the end are dropped, in this order.
The definitions follow `sanitize_filename_stem`, `unique_tag` and the first half of
`exec_via_temp_file` in `winstub/src/main.rs`.

Main results:

- Theorem `sanitizeFilenameStem_safe` and `sanitizeFilenameStem_last`: what a stem is made
  of, and what it does not end in.
- Theorem `sanitizeFilenameStem_eq_empty_iff`: the names that leave no stem.
- Theorem `tempPath_isChild`: the temp path is a direct child of `%TEMP%`.
- Theorem `tempPath_eq_ofText`: on a drive or a share it is what the two texts read as,
  one behind the other.
- Theorem `realStem_iff`: it carries a real stem for all but these names.
-/

namespace Upxz
namespace Winstub

open Machine

/-! ## The stem -/

/-- A character that is kept. -/
def isSafe (c : Char) : Bool :=
  c.isAlphanum || c = '.' || c = '-' || c = '_'

/-- A character as it is kept, or its replacement. -/
def safeChar (c : Char) : Char :=
  if isSafe c then c else '_'

/-- What Windows does not allow at the end of a file name. -/
def isTrailing (c : Char) : Bool :=
  c = '.' || c = ' '

/-- Flatten a stored name to a filesystem-safe stem. -/
def sanitizeFilenameStem (name : String) : String :=
  let s := name.toList.map safeChar
  -- Strip any extension; the caller appends its own.
  let s := (beforeLast s '.').getD s
  let s := if s = [] then ['a', 'p', 'p'] else s
  String.ofList (s.rdropWhile isTrailing)

/-! ## The temp path -/

/-- What the running stub finds around it: the temp directory, its process id, the
nanoseconds of the clock, and the address these are stored at. -/
structure Process where
  tempDir : WindowsPath
  id : UInt32
  nanos : UInt32
  nanosAddr : UInt64

/-- A short, mostly unique tag. -/
def uniqueTag (nanos : UInt32) (nanosAddr : UInt64) : String :=
  let seed := nanos.toUInt64 ^^^ nanosAddr
  let x := seed * 0x9E3779B9 + 1
  let x := x ^^^ (x <<< 13)
  let x := x ^^^ (x >>> 7)
  let x := x ^^^ (x <<< 17)
  String.ofList ((Nat.toDigits 16 x.toNat).leftpad 4 '0')

/-- The name of the temp file. -/
def tmpName (proc : Process) (safeStem : String) : String :=
  "upxz-" ++ toString proc.id.toNat ++ "-" ++ uniqueTag proc.nanos proc.nanosAddr ++ "-" ++
    safeStem ++ ".exe"

/-- The temp path for a stored name. -/
def tempPath (proc : Process) (storedName : String) : WindowsPath :=
  let safeStem := sanitizeFilenameStem storedName
  proc.tempDir.join (WindowsPath.ofText (asBytes (tmpName proc safeStem)))

/-! ## What a stem is made of -/

theorem isSafe_safeChar (c : Char) : isSafe (safeChar c) = true := by
  unfold safeChar
  split_ifs with h
  · exact h
  · decide

/-- Only a dot becomes a dot. -/
theorem safeChar_eq_dot_iff {c : Char} : safeChar c = '.' ↔ c = '.' := by
  unfold safeChar
  split_ifs with h
  · exact Iff.rfl
  · constructor
    · intro heq
      exact absurd heq (by decide)
    · intro heq
      rw [heq] at h
      exact absurd (by decide) h

/-- The mapped name without its extension. -/
def cutName (name : String) : List Char :=
  (beforeLast (name.toList.map safeChar) '.').getD (name.toList.map safeChar)

/-- The cut name, or the fallback: a stem but for the trailing characters. -/
def stemChars (name : String) : List Char :=
  if cutName name = [] then ['a', 'p', 'p'] else cutName name

theorem sanitizeFilenameStem_toList (name : String) :
    (sanitizeFilenameStem name).toList = (stemChars name).rdropWhile isTrailing :=
  String.toList_ofList

theorem isSafe_of_mem_cutName {name : String} {c : Char} (h : c ∈ cutName name) :
    isSafe c = true := by
  unfold cutName at h
  have hmem : c ∈ name.toList.map safeChar := by
    cases hcut : beforeLast (name.toList.map safeChar) '.' with
    | none =>
        rw [hcut] at h
        exact h
    | some front =>
        rw [hcut] at h
        rcases beforeLast_eq_some_iff.mp hcut with ⟨rest, -, hs⟩
        rw [hs]
        exact List.mem_append_left _ h
  rcases List.mem_map.mp hmem with ⟨original, -, rfl⟩
  exact isSafe_safeChar original

theorem isSafe_of_mem_stemChars {name : String} {c : Char} (h : c ∈ stemChars name) :
    isSafe c = true := by
  unfold stemChars at h
  split_ifs at h with hempty
  · have hfallback : ['a', 'p', 'p'].all isSafe = true := by decide
    exact List.all_eq_true.mp hfallback c h
  · exact isSafe_of_mem_cutName h

/-- A stem is made of letters, digits, dots, hyphens and underscores of ASCII. -/
theorem sanitizeFilenameStem_safe (name : String) :
    ∀ c ∈ (sanitizeFilenameStem name).toList, isSafe c = true := by
  intro c hc
  rw [sanitizeFilenameStem_toList] at hc
  exact isSafe_of_mem_stemChars ((List.rdropWhile_prefix _ _).subset hc)

/-- A stem ends neither in a dot nor in a space. -/
theorem sanitizeFilenameStem_last (name : String) :
    ∀ c ∈ (sanitizeFilenameStem name).toList.getLast?, isTrailing c = false := by
  intro c hc
  rw [sanitizeFilenameStem_toList] at hc
  have hne : (stemChars name).rdropWhile isTrailing ≠ [] := by
    intro hnil
    rw [hnil] at hc
    cases hc
  rw [List.getLast?_eq_some_getLast hne, Option.mem_some_iff] at hc
  have hlast := List.rdropWhile_last_not isTrailing (stemChars name) hne
  rw [hc, Bool.not_eq_true] at hlast
  exact hlast

/-! ## Names that leave no stem -/

/-- At least two dots in front of an extension, and nothing else. -/
def DotsOnly (name : String) : Prop :=
  ∃ k extension, '.' ∉ extension ∧ name.toList = List.replicate (k + 2) '.' ++ extension

theorem isTrailing_iff_of_isSafe {c : Char} (h : isSafe c = true) :
    isTrailing c = true ↔ c = '.' := by
  constructor
  · intro htrailing
    simp only [isTrailing, Bool.or_eq_true, decide_eq_true_eq] at htrailing
    rcases htrailing with hdot | hspace
    · exact hdot
    · rw [hspace] at h
      exact absurd h (by decide)
  · intro hdot
    rw [hdot]
    decide

/-- A stem is empty when the cut name has characters and all of them are dots. -/
theorem sanitizeFilenameStem_eq_empty_iff_cutName {name : String} :
    sanitizeFilenameStem name = "" ↔ ∃ k, cutName name = List.replicate (k + 1) '.' := by
  rw [← String.toList_inj, sanitizeFilenameStem_toList, String.toList_empty,
    List.rdropWhile_eq_nil_iff]
  unfold stemChars
  split_ifs with hempty
  · rw [hempty]
    constructor
    · intro h
      exact absurd (h 'a' List.mem_cons_self) (by decide)
    · intro h
      rcases h with ⟨k, hk⟩
      cases hk
  · constructor
    · intro h
      have hpos := List.length_pos_of_ne_nil hempty
      refine ⟨_ - 1, List.eq_replicate_iff.mpr ⟨(Nat.sub_add_cancel hpos).symm, ?_⟩⟩
      intro c hc
      exact (isTrailing_iff_of_isSafe (isSafe_of_mem_cutName hc)).mp (h c hc)
    · intro h
      rcases h with ⟨k, hk⟩
      intro c hc
      rw [hk] at hc
      rw [List.eq_of_mem_replicate hc]
      decide

/-- Dots in a mapped name are dots of the name. -/
theorem eq_dots_of_map_safeChar {s rest : List Char} {n : Nat} (hrest : '.' ∉ rest)
    (h : s.map safeChar = List.replicate n '.' ++ rest) :
    ∃ extension, '.' ∉ extension ∧ s = List.replicate n '.' ++ extension := by
  rcases List.map_eq_append_iff.mp h with ⟨dots, extension, hs, hdots, hext⟩
  refine ⟨extension, ?_, ?_⟩
  · intro hdot
    apply hrest
    rw [← hext]
    exact List.mem_map.mpr ⟨'.', hdot, safeChar_eq_dot_iff.mpr rfl⟩
  · have hlen := congrArg List.length hdots
    rw [List.length_map, List.length_replicate] at hlen
    have hall : dots = List.replicate n '.' := by
      apply List.eq_replicate_iff.mpr
      refine ⟨hlen, ?_⟩
      intro c hc
      apply safeChar_eq_dot_iff.mp
      apply List.eq_of_mem_replicate (n := n)
      rw [← hdots]
      exact List.mem_map.mpr ⟨c, hc, rfl⟩
    rw [hs, hall]

theorem replicate_append_dot (k : Nat) (rest : List Char) :
    List.replicate (k + 1) '.' ++ '.' :: rest = List.replicate (k + 2) '.' ++ rest := by
  rw [List.append_cons, ← List.replicate_succ']

/-- The cut leaves dots and nothing else of the names that are dots in front of an
extension. -/
theorem cutName_eq_dots_iff {name : String} :
    (∃ k, cutName name = List.replicate (k + 1) '.') ↔ DotsOnly name := by
  unfold cutName
  constructor
  · intro h
    rcases h with ⟨k, hk⟩
    cases hcut : beforeLast (name.toList.map safeChar) '.' with
    | none =>
        -- Without a dot nothing is cut, and what is left is no run of dots.
        rw [hcut, Option.getD_none] at hk
        have hmem : '.' ∈ name.toList.map safeChar := by
          rw [hk]
          exact List.mem_replicate.mpr ⟨Nat.succ_ne_zero k, rfl⟩
        rw [beforeLast, if_pos hmem] at hcut
        cases hcut
    | some front =>
        rw [hcut, Option.getD_some] at hk
        rcases beforeLast_eq_some_iff.mp hcut with ⟨rest, hrest, hs⟩
        rw [hk, replicate_append_dot] at hs
        rcases eq_dots_of_map_safeChar hrest hs with ⟨extension, hext, hname⟩
        exact ⟨k, extension, hext, hname⟩
  · intro h
    rcases h with ⟨k, extension, hext, hname⟩
    have hrest : '.' ∉ extension.map safeChar := by
      intro hdot
      rcases List.mem_map.mp hdot with ⟨c, hc, hsafe⟩
      rw [safeChar_eq_dot_iff.mp hsafe] at hc
      exact hext hc
    refine ⟨k, ?_⟩
    rw [hname, List.map_append, List.map_replicate, safeChar_eq_dot_iff.mpr rfl,
      ← replicate_append_dot, beforeLast_append hrest, Option.getD_some]

/-- The names that leave no stem: the fallback looks for an empty rest before the dots at
the end are dropped. -/
theorem sanitizeFilenameStem_eq_empty_iff {name : String} :
    sanitizeFilenameStem name = "" ↔ DotsOnly name :=
  sanitizeFilenameStem_eq_empty_iff_cutName.trans cutName_eq_dots_iff

/-! ## The temp path is a child -/

theorem isSafe_of_mem_toDigits {c : Char} (n : Nat) (h : c ∈ Nat.toDigits 16 n) :
    isSafe c = true := by
  have hdigit : ∀ d : Fin 16, isSafe d.val.digitChar = true := by decide
  induction n using Nat.strongRecOn with
  | ind n ih =>
      by_cases hlt : n < 16
      · rw [Nat.toDigits_of_lt_base hlt, List.mem_singleton] at h
        rw [h]
        exact hdigit ⟨n, hlt⟩
      · rw [Nat.toDigits_of_base_le (by decide) (Nat.not_lt.mp hlt), List.mem_append,
          List.mem_singleton] at h
        rcases h with h | h
        · exact ih (n / 16) (Nat.div_lt_self (by omega) (by decide)) h
        · rw [h]
          exact hdigit ⟨n % 16, Nat.mod_lt n (by decide)⟩

theorem isSafe_of_mem_uniqueTag {nanos : UInt32} {nanosAddr : UInt64} {c : Char}
    (h : c ∈ (uniqueTag nanos nanosAddr).toList) : isSafe c = true := by
  unfold uniqueTag at h
  dsimp only at h
  rw [String.toList_ofList, List.leftpad, List.mem_append] at h
  rcases h with h | h
  · rw [List.eq_of_mem_replicate h]
    decide
  · exact isSafe_of_mem_toDigits _ h

theorem isSafe_of_mem_toString {c : Char} (n : Nat) (h : c ∈ (toString n).toList) :
    isSafe c = true := by
  rw [Nat.toString_eq_repr, Nat.toList_repr] at h
  have hdigit := Nat.isDigit_of_mem_toDigits (by decide) (by decide) h
  simp [isSafe, Char.isAlphanum, hdigit]

/-- A temp file name is made of the characters of a stem. -/
theorem isSafe_of_mem_tmpName {proc : Process} {stem : String}
    (hstem : ∀ c ∈ stem.toList, isSafe c = true) {c : Char}
    (h : c ∈ (tmpName proc stem).toList) : isSafe c = true := by
  have hlead : "upxz-".toList.all isSafe = true := by decide
  have hyphen : "-".toList.all isSafe = true := by decide
  have hexe : ".exe".toList.all isSafe = true := by decide
  simp only [tmpName, String.toList_append, List.mem_append] at h
  rcases h with (((((h | h) | h) | h) | h) | h) | h
  · exact List.all_eq_true.mp hlead c h
  · exact isSafe_of_mem_toString _ h
  · exact List.all_eq_true.mp hyphen c h
  · exact isSafe_of_mem_uniqueTag h
  · exact List.all_eq_true.mp hyphen c h
  · exact hstem c h
  · exact List.all_eq_true.mp hexe c h

theorem not_mem_asBytes_tmpName {proc : Process} {stem : String}
    (hstem : ∀ c ∈ stem.toList, isSafe c = true) {b : UInt8} (hascii : b.toNat < 0x80)
    (hb : isSafe (asciiChar b) = false) : b ∉ asBytes (tmpName proc stem) := by
  rw [ascii_mem_asBytes_iff hascii]
  intro hmem
  rw [isSafe_of_mem_tmpName hstem hmem] at hb
  cases hb

/-- A temp file name is no other name without its first letter. -/
theorem asBytes_tmpName_ne (proc : Process) (stem other : String)
    (h : 'u' ∉ other.toList) : asBytes (tmpName proc stem) ≠ asBytes other := by
  intro heq
  apply h
  rw [← asBytes_injective heq]
  simp only [tmpName, String.toList_append, List.mem_append]
  refine Or.inl (Or.inl (Or.inl (Or.inl (Or.inl (Or.inl ?_)))))
  decide

/-- A temp file name is plain. -/
theorem plainName_tmpName {proc : Process} {stem : String}
    (hstem : ∀ c ∈ stem.toList, isSafe c = true) :
    WindowsPath.PlainName (asBytes (tmpName proc stem)) where
  ne_nil := asBytes_tmpName_ne proc stem "" (by decide)
  no_slash := not_mem_asBytes_tmpName hstem (by decide) (by decide)
  ne_dot := asBytes_tmpName_ne proc stem "." (by decide)
  ne_dotdot := asBytes_tmpName_ne proc stem ".." (by decide)
  no_backslash := not_mem_asBytes_tmpName hstem (by decide) (by decide)
  no_colon := not_mem_asBytes_tmpName hstem (by decide) (by decide)

/-- The temp path is a direct child of the temp directory. -/
theorem tempPath_isChild (proc : Process) (storedName : String) :
    WindowsPath.IsChild proc.tempDir
      (asBytes (tmpName proc (sanitizeFilenameStem storedName))) (tempPath proc storedName) :=
  WindowsPath.join_plainName proc.tempDir (plainName_tmpName (sanitizeFilenameStem_safe storedName))

/-- With a temp directory on a drive or a share, the temp path is what the directory's text
reads as with the file's name behind it. -/
theorem tempPath_eq_ofText {proc : Process} {dir : Bytes} {volume : Volume}
    (hdir : proc.tempDir = WindowsPath.ofText dir)
    (hvolume : WindowsPath.parseVolume dir = some volume)
    (hkind : WindowsPath.isDriveOrShare volume = true) (storedName : String) :
    tempPath proc storedName = WindowsPath.ofText
      (WindowsPath.pushText dir (asBytes (tmpName proc (sanitizeFilenameStem storedName)))) := by
  have hplain : WindowsPath.PlainName (asBytes (tmpName proc (sanitizeFilenameStem storedName))) :=
    plainName_tmpName (sanitizeFilenameStem_safe storedName)
  rw [WindowsPath.ofText_pushText hplain hvolume hkind, ← hdir]
  rfl

/-- A stem that is part of a file name: not empty, of harmless characters, and with an end
that Windows allows. -/
structure RealStem (stem : String) : Prop where
  ne_empty : stem ≠ ""
  safe : ∀ c ∈ stem.toList, c.isAlphanum ∨ c = '.' ∨ c = '-' ∨ c = '_'
  last : ∀ c ∈ stem.toList.getLast?, c ≠ '.' ∧ c ≠ ' '

/-- The stem of a stored name is real, and the temp path a child of the temp directory that
carries it, exactly when the name is not just dots in front of an extension. -/
theorem realStem_iff (storedName : String) :
    (RealStem (sanitizeFilenameStem storedName) ∧
      ∀ proc, WindowsPath.IsChild proc.tempDir
        (asBytes (tmpName proc (sanitizeFilenameStem storedName))) (tempPath proc storedName)) ↔
      ¬DotsOnly storedName := by
  rw [← sanitizeFilenameStem_eq_empty_iff]
  constructor
  · intro h
    exact h.1.ne_empty
  · intro hne
    refine ⟨⟨hne, ?_, ?_⟩, fun proc => tempPath_isChild proc storedName⟩
    · intro c hc
      have hsafe := sanitizeFilenameStem_safe storedName c hc
      simpa [isSafe, or_assoc] using hsafe
    · intro c hc
      have hlast := sanitizeFilenameStem_last storedName c hc
      simpa [isTrailing] using hlast

/-- The name `...` can be stored, and so can `..rc`; they leave no stem, and the temp file is
called `upxz-<pid>-<tag>-.exe`. -/
theorem not_realStem_dots :
    Cli.sanitizeName (asBytes "...") = .ok "..." ∧ sanitizeFilenameStem "..." = "" ∧
      ¬RealStem (sanitizeFilenameStem "...") ∧
      Cli.sanitizeName (asBytes "..rc") = .ok "..rc" ∧ sanitizeFilenameStem "..rc" = "" := by
  have hempty : sanitizeFilenameStem "..." = "" := by decide
  refine ⟨?_, hempty, ?_, ?_, by decide⟩
  · exact Cli.sanitizeName_eq_ok_iff.mpr (by decide)
  · intro h
    exact h.ne_empty hempty
  · exact Cli.sanitizeName_eq_ok_iff.mpr (by decide)

end Winstub
end Upxz
