import Mathlib.Data.List.Basic

/-!
# Machine - Text in 16-bit units

Windows passes text in 16-bit units, which need not pair up.  A string is written as units
that do; reading the units back gives the string, and nothing else reads as it.

Main results:

- Theorem `fromUtf16_eq_some_iff`: units are read as a string exactly when they are how the
  string is written.
- Theorem `mapM_fromUtf16_eq_some_iff`: and so are lists of them.
-/

namespace Machine

/-- Text as Windows passes it. -/
abbrev Wide := List UInt16

/-! ## Units -/

/-- Not half of a pair. -/
def isLone (u : UInt16) : Bool :=
  u < 0xD800 || 0xE000 ≤ u

/-- First half of a pair. -/
def isHigh (u : UInt16) : Bool :=
  0xD800 ≤ u && u < 0xDC00

/-- Second half of a pair. -/
def isLow (u : UInt16) : Bool :=
  0xDC00 ≤ u && u < 0xE000

/-- The character of a pair. -/
def pairChar (u v : UInt16) : Char :=
  Char.ofNat (0x10000 + (u.toNat - 0xD800) * 0x400 + (v.toNat - 0xDC00))

/-- How a character is written. -/
def utf16EncodeChar (c : Char) : Wide :=
  if c.toNat < 0x10000 then [UInt16.ofNat c.toNat]
  else
    [UInt16.ofNat (0xD800 + (c.toNat - 0x10000) / 0x400),
      UInt16.ofNat (0xDC00 + (c.toNat - 0x10000) % 0x400)]

/-- `str::encode_utf16`. -/
def encodeUtf16 (s : String) : Wide :=
  s.toList.flatMap utf16EncodeChar

/-- `char::decode_utf16`: the characters, or the unit that has no partner. -/
def decodeUtf16 : Wide → List (Except UInt16 Char)
  | [] => []
  | [u] => [if isLone u then .ok (Char.ofNat u.toNat) else .error u]
  | u :: v :: rest =>
      if isLone u then .ok (Char.ofNat u.toNat) :: decodeUtf16 (v :: rest)
      else if isHigh u && isLow v then .ok (pairChar u v) :: decodeUtf16 rest
      else .error u :: decodeUtf16 (v :: rest)

/-- Read units that all pair up. -/
def fromUtf16 (units : Wide) : Option String :=
  ((decodeUtf16 units).mapM Except.toOption).map String.ofList

/-- `OsStr::to_string_lossy`: a unit without a partner becomes U+FFFD. -/
def lossyUtf16 (units : Wide) : String :=
  String.ofList ((decodeUtf16 units).map fun piece => piece.toOption.getD (Char.ofNat 0xFFFD))

/-! ## One character -/

theorem toNat_of_lt (n : Nat) (h : n < 0x10000) : (UInt16.ofNat n).toNat = n := by
  rw [UInt16.toNat_ofNat']
  exact Nat.mod_eq_of_lt h

theorem isLone_iff {u : UInt16} : isLone u = true ↔ u.toNat < 0xD800 ∨ 0xE000 ≤ u.toNat := by
  simp only [isLone, Bool.or_eq_true, decide_eq_true_eq, UInt16.lt_iff_toNat_lt,
    UInt16.le_iff_toNat_le]
  exact Iff.rfl

theorem isHigh_iff {u : UInt16} : isHigh u = true ↔ 0xD800 ≤ u.toNat ∧ u.toNat < 0xDC00 := by
  simp only [isHigh, Bool.and_eq_true, decide_eq_true_eq, UInt16.lt_iff_toNat_lt,
    UInt16.le_iff_toNat_le]
  exact Iff.rfl

theorem isLow_iff {u : UInt16} : isLow u = true ↔ 0xDC00 ≤ u.toNat ∧ u.toNat < 0xE000 := by
  simp only [isLow, Bool.and_eq_true, decide_eq_true_eq, UInt16.lt_iff_toNat_lt,
    UInt16.le_iff_toNat_le]
  exact Iff.rfl

theorem char_toNat_ofNat {n : Nat} (h : n.isValidChar) : (Char.ofNat n).toNat = n := by
  rw [Char.ofNat, dif_pos h]
  rfl

/-- A character that one unit writes is that unit. -/
theorem utf16EncodeChar_lone {u : UInt16} (h : isLone u = true) :
    utf16EncodeChar (Char.ofNat u.toNat) = [u] := by
  have hlone := isLone_iff.mp h
  have hlt := u.toNat_lt
  have hvalid : u.toNat.isValidChar := by
    unfold Nat.isValidChar
    omega
  have hsmall : (Char.ofNat u.toNat).toNat < 0x10000 := by
    rw [char_toNat_ofNat hvalid]
    omega
  rw [utf16EncodeChar, if_pos hsmall, char_toNat_ofNat hvalid, UInt16.ofNat_toNat]

/-- The character of a pair is written as the pair. -/
theorem utf16EncodeChar_pair {u v : UInt16} (hu : isHigh u = true) (hv : isLow v = true) :
    utf16EncodeChar (pairChar u v) = [u, v] := by
  have hhigh := isHigh_iff.mp hu
  have hlow := isLow_iff.mp hv
  have hvalid : (0x10000 + (u.toNat - 0xD800) * 0x400 + (v.toNat - 0xDC00)).isValidChar := by
    unfold Nat.isValidChar
    omega
  have hlarge : ¬(pairChar u v).toNat < 0x10000 := by
    rw [pairChar, char_toNat_ofNat hvalid]
    omega
  rw [utf16EncodeChar, if_neg hlarge, pairChar, char_toNat_ofNat hvalid]
  have hfirst : 0xD800 + (0x10000 + (u.toNat - 0xD800) * 0x400 + (v.toNat - 0xDC00) - 0x10000) /
      0x400 = u.toNat := by omega
  have hsecond : 0xDC00 + (0x10000 + (u.toNat - 0xD800) * 0x400 + (v.toNat - 0xDC00) - 0x10000) %
      0x400 = v.toNat := by omega
  rw [hfirst, hsecond, UInt16.ofNat_toNat, UInt16.ofNat_toNat]

theorem decodeUtf16_lone {u : UInt16} (h : isLone u = true) (rest : Wide) :
    decodeUtf16 (u :: rest) = .ok (Char.ofNat u.toNat) :: decodeUtf16 rest := by
  cases rest with
  | nil => simp only [decodeUtf16, if_pos h]
  | cons v rest => rw [decodeUtf16, if_pos h]

theorem decodeUtf16_pair {u v : UInt16} (hu : isHigh u = true) (hv : isLow v = true)
    (rest : Wide) : decodeUtf16 (u :: v :: rest) = .ok (pairChar u v) :: decodeUtf16 rest := by
  have hlone : ¬isLone u = true := by
    have hhigh := isHigh_iff.mp hu
    rw [isLone_iff]
    omega
  rw [decodeUtf16, if_neg hlone, if_pos (by rw [hu, hv]; rfl)]

theorem decodeUtf16_ne_nil (u : UInt16) (units : Wide) : decodeUtf16 (u :: units) ≠ [] := by
  cases units with
  | nil => exact List.cons_ne_nil _ _
  | cons v units =>
      rw [decodeUtf16]
      split_ifs
      · exact List.cons_ne_nil _ _
      · exact List.cons_ne_nil _ _
      · exact List.cons_ne_nil _ _

/-- What is read first is written first. -/
theorem eq_encode_of_decode {units : Wide} {c : Char} {pieces : List (Except UInt16 Char)}
    (h : decodeUtf16 units = .ok c :: pieces) :
    ∃ rest, units = utf16EncodeChar c ++ rest ∧ decodeUtf16 rest = pieces := by
  cases units with
  | nil => cases h
  | cons u units =>
      by_cases hlone : isLone u = true
      · rw [decodeUtf16_lone hlone] at h
        cases h
        exact ⟨units, by rw [utf16EncodeChar_lone hlone]; rfl, rfl⟩
      · cases units with
        | nil =>
            rw [decodeUtf16, if_neg hlone] at h
            cases h
        | cons v units =>
            by_cases hpair : (isHigh u && isLow v) = true
            · rcases (Bool.and_eq_true _ _).mp hpair with ⟨hu, hv⟩
              rw [decodeUtf16_pair hu hv] at h
              rcases List.cons.inj h with ⟨hfirst, hrest⟩
              refine ⟨units, ?_, hrest⟩
              rw [← Except.ok.inj hfirst, utf16EncodeChar_pair hu hv]
              rfl
            · rw [decodeUtf16, if_neg hlone, if_neg hpair] at h
              cases h

/-- What is written first is read first. -/
theorem decodeUtf16_encode_append (c : Char) (rest : Wide) :
    decodeUtf16 (utf16EncodeChar c ++ rest) = .ok c :: decodeUtf16 rest := by
  have hvalid : c.toNat.isValidChar := c.valid
  have hself : Char.ofNat c.toNat = c := Char.ofNat_toNat c
  unfold Nat.isValidChar at hvalid
  by_cases hsmall : c.toNat < 0x10000
  · have hunit := toNat_of_lt c.toNat hsmall
    have hlone : isLone (UInt16.ofNat c.toNat) = true := by
      rw [isLone_iff, hunit]
      omega
    rw [utf16EncodeChar, if_pos hsmall, List.singleton_append, decodeUtf16_lone hlone, hunit,
      hself]
  · let high := 0xD800 + (c.toNat - 0x10000) / 0x400
    let low := 0xDC00 + (c.toNat - 0x10000) % 0x400
    have hfirst : (UInt16.ofNat high).toNat = high := toNat_of_lt high (by omega)
    have hsecond : (UInt16.ofNat low).toNat = low := toNat_of_lt low (by omega)
    have hhigh : isHigh (UInt16.ofNat high) = true := by
      rw [isHigh_iff, hfirst]
      omega
    have hlow : isLow (UInt16.ofNat low) = true := by
      rw [isLow_iff, hsecond]
      omega
    have hpair : pairChar (UInt16.ofNat high) (UInt16.ofNat low) = c := by
      rw [pairChar, hfirst, hsecond]
      have hcode : 0x10000 + (high - 0xD800) * 0x400 + (low - 0xDC00) = c.toNat := by omega
      rw [hcode, hself]
    rw [utf16EncodeChar, if_neg hsmall]
    exact (decodeUtf16_pair hhigh hlow rest).trans (by rw [hpair])

/-! ## Strings -/

/-- A string is read back from how it is written. -/
theorem decodeUtf16_encode (cs : List Char) :
    decodeUtf16 (cs.flatMap utf16EncodeChar) = cs.map .ok := by
  induction cs with
  | nil => rfl
  | cons c cs ih => rw [List.flatMap_cons, decodeUtf16_encode_append, ih, List.map_cons]

/-- Units that are read without a break are how the string read is written. -/
theorem eq_encode_of_decode_map {cs : List Char} {units : Wide}
    (h : decodeUtf16 units = cs.map .ok) : cs.flatMap utf16EncodeChar = units := by
  induction cs generalizing units with
  | nil =>
      cases units with
      | nil => rfl
      | cons u units => exact (decodeUtf16_ne_nil u units h).elim
  | cons c cs ih =>
      rcases eq_encode_of_decode h with ⟨rest, rfl, hrest⟩
      rw [List.flatMap_cons, ih hrest]

theorem mapM_toOption_eq_some_iff {pieces : List (Except UInt16 Char)} {cs : List Char} :
    pieces.mapM Except.toOption = some cs ↔ pieces = cs.map .ok := by
  induction pieces generalizing cs with
  | nil => cases cs <;> simp
  | cons piece pieces ih =>
      rw [List.mapM_cons]
      cases piece with
      | error u => cases cs <;> simp [Except.toOption]
      | ok c =>
          cases cs with
          | nil => simp [Except.toOption, Option.bind_eq_some_iff]
          | cons c' cs => simp [Except.toOption, Option.bind_eq_some_iff, ih, and_comm]

/-- Units are read as a string exactly when they are how the string is written. -/
theorem fromUtf16_eq_some_iff {units : Wide} {s : String} :
    fromUtf16 units = some s ↔ encodeUtf16 s = units := by
  unfold fromUtf16 encodeUtf16
  rw [Option.map_eq_some_iff]
  constructor
  · intro h
    rcases h with ⟨cs, hread, rfl⟩
    rw [String.toList_ofList]
    exact eq_encode_of_decode_map (mapM_toOption_eq_some_iff.mp hread)
  · intro h
    refine ⟨s.toList, mapM_toOption_eq_some_iff.mpr ?_, String.ofList_toList⟩
    rw [← h]
    exact decodeUtf16_encode s.toList

/-- A list of units is read as strings exactly when it is how these are written. -/
theorem mapM_fromUtf16_eq_some_iff {list : List Wide} {texts : List String} :
    list.mapM fromUtf16 = some texts ↔ texts.map encodeUtf16 = list := by
  induction list generalizing texts with
  | nil => cases texts <;> simp
  | cons units list ih =>
      rw [List.mapM_cons]
      cases texts with
      | nil => simp [Option.bind_eq_some_iff]
      | cons text texts =>
          simp [Option.bind_eq_some_iff, fromUtf16_eq_some_iff, ih]

/-- The units are a string's. -/
def IsUtf16 (units : Wide) : Prop :=
  ∃ s, encodeUtf16 s = units

/-- Units read whole are a string's. -/
theorem isSome_fromUtf16_iff {units : Wide} : (fromUtf16 units).isSome = true ↔ IsUtf16 units := by
  rw [Option.isSome_iff_exists]
  exact exists_congr fun _ => fromUtf16_eq_some_iff

/-- A list of which some units are no string's is not read. -/
theorem exists_not_isUtf16_of_mapM {list : List Wide} (h : list.mapM fromUtf16 = none) :
    ∃ units ∈ list, ¬IsUtf16 units := by
  by_contra hall
  push Not at hall
  have hread : ∃ texts : List String, texts.map encodeUtf16 = list := by
    clear h
    induction list with
    | nil => exact ⟨[], rfl⟩
    | cons units list ih =>
        rcases List.forall_mem_cons.mp hall with ⟨⟨text, htext⟩, hrest⟩
        rcases ih hrest with ⟨texts, htexts⟩
        exact ⟨text :: texts, by rw [List.map_cons, htext, htexts]⟩
  rcases hread with ⟨texts, htexts⟩
  rw [mapM_fromUtf16_eq_some_iff.mpr htexts] at h
  cases h

instance (units : Wide) : Decidable (IsUtf16 units) :=
  decidable_of_iff _ isSome_fromUtf16_iff

end Machine
