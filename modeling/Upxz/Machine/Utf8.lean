import Upxz.Machine.Exec

/-!
# Machine - UTF-8 byte strings

A strict and a lossy reading of byte strings as text.  Both come from one scan
that cuts the input into pieces: a piece is either the encoding of one scalar
value or a maximal broken prefix.  The strict reading `fromUtf8` refuses the
first broken piece, the lossy reading `toStringLossy` replaces each of them by
U+FFFD.

Main results:

- Theorem `fromUtf8_eq_ok_iff`: the strict reading returns exactly the string
  whose bytes were given.
- Theorem `pieces_append_ascii`: an ASCII byte always starts a new piece.
- Theorem `ascii_suffix_lossy_iff`: the lossy reading neither adds nor removes
  an ASCII suffix.
-/

namespace Machine

/-! ## Encoding -/

/-- `str::as_bytes`. -/
def asBytes (s : String) : Bytes :=
  s.toByteArray.data.toList

theorem asBytes_eq_flatMap (s : String) :
    asBytes s = s.toList.flatMap String.utf8EncodeChar := by
  unfold asBytes
  rw [← String.utf8Encode_toList]
  simp [List.utf8Encode]

@[simp]
theorem asBytes_ofList (cs : List Char) :
    asBytes (String.ofList cs) = cs.flatMap String.utf8EncodeChar := by
  rw [asBytes_eq_flatMap, String.toList_ofList]

/-- A string is determined by its bytes. -/
theorem asBytes_injective {s t : String} (h : asBytes s = asBytes t) : s = t := by
  apply String.toByteArray_inj.mp
  apply ByteArray.ext
  exact Array.toList_inj.mp h

theorem asBytes_eq_nil_iff {s : String} : asBytes s = [] ↔ s = "" := by
  constructor
  · intro h
    exact asBytes_injective (h.trans (by decide))
  · rintro rfl
    decide

/-- The scalar value of an ASCII byte. -/
def asciiChar (b : UInt8) : Char := Char.ofNat b.toNat

/-- Every byte of an encoding after the first is a continuation byte. -/
theorem continuation_of_mem_tail {c : Char} {b : UInt8}
    (h : b ∈ (String.utf8EncodeChar c).tail) : 0x80 ≤ b.toNat := by
  unfold String.utf8EncodeChar at h
  dsimp only at h
  split_ifs at h
  · simp at h
  · simp only [List.tail_cons, List.mem_cons, List.not_mem_nil, or_false] at h
    subst h
    rw [UInt8.toNat_ofNat']
    omega
  · simp only [List.tail_cons, List.mem_cons, List.not_mem_nil, or_false] at h
    rcases h with rfl | rfl <;> rw [UInt8.toNat_ofNat'] <;> omega
  · simp only [List.tail_cons, List.mem_cons, List.not_mem_nil, or_false] at h
    rcases h with rfl | rfl | rfl <;> rw [UInt8.toNat_ofNat'] <;> omega

/-- An encoding that contains an ASCII byte is that byte alone. -/
theorem utf8EncodeChar_of_ascii_mem {c : Char} {b : UInt8} (hb : b.toNat < 0x80)
    (h : b ∈ String.utf8EncodeChar c) :
    c = asciiChar b ∧ String.utf8EncodeChar c = [b] := by
  unfold String.utf8EncodeChar at h ⊢
  dsimp only at h ⊢
  split_ifs at h ⊢ with h₁ h₂ h₃
  · simp only [List.mem_cons, List.not_mem_nil, or_false] at h
    have hval : b.toNat = c.val.toNat := by
      rw [h, UInt8.toNat_ofNat']
      omega
    refine ⟨?_, by rw [h]⟩
    rw [asciiChar, hval]
    exact (Char.ofNat_toNat c).symm
  · simp only [List.mem_cons, List.not_mem_nil, or_false] at h
    rcases h with rfl | rfl <;> rw [UInt8.toNat_ofNat'] at hb <;> omega
  · simp only [List.mem_cons, List.not_mem_nil, or_false] at h
    rcases h with rfl | rfl | rfl <;> rw [UInt8.toNat_ofNat'] at hb <;> omega
  · simp only [List.mem_cons, List.not_mem_nil, or_false] at h
    rcases h with rfl | rfl | rfl | rfl <;> rw [UInt8.toNat_ofNat'] at hb <;> omega

theorem utf8EncodeChar_asciiChar {b : UInt8} (hb : b.toNat < 0x80) :
    String.utf8EncodeChar (asciiChar b) = [b] := by
  have hval : (asciiChar b).val.toNat = b.toNat := by
    have hvalid : b.toNat.isValidChar := Or.inl (by omega)
    rw [asciiChar, Char.ofNat, dif_pos hvalid]
    rfl
  unfold String.utf8EncodeChar
  dsimp only
  rw [hval, if_pos (by omega), UInt8.ofNat_toNat]

/-- An ASCII byte occurs in the bytes of a string exactly when its character
occurs in the string. -/
theorem ascii_mem_asBytes_iff {s : String} {b : UInt8} (hb : b.toNat < 0x80) :
    b ∈ asBytes s ↔ asciiChar b ∈ s.toList := by
  rw [asBytes_eq_flatMap, List.mem_flatMap]
  constructor
  · rintro ⟨c, hc, hmem⟩
    rw [← (utf8EncodeChar_of_ascii_mem hb hmem).1]
    exact hc
  · intro h
    exact ⟨asciiChar b, h, by simp [utf8EncodeChar_asciiChar hb]⟩

/-! ## Pieces of a byte string -/

/-- Decode the scalar value whose encoding the bytes start with. -/
def decodeChar? (bs : Bytes) : Option Char :=
  bs.toByteArray.utf8DecodeChar? 0

/-- Decoding is exactly recognition of an encoded prefix. -/
theorem decodeChar?_eq_some_iff {bs : Bytes} {c : Char} :
    decodeChar? bs = some c ↔ String.utf8EncodeChar c <+: bs := by
  constructor
  · intro h
    rcases ByteArray.exists_of_utf8DecodeChar?_eq_some h with ⟨rest, hrest⟩
    have hlist := congrArg (fun b : ByteArray => b.data.toList) hrest
    refine ⟨rest.data.toList, ?_⟩
    simpa using hlist.symm
  · rintro ⟨rest, rfl⟩
    unfold decodeChar?
    rw [List.toByteArray_append]
    exact ByteArray.utf8DecodeChar?_utf8EncodeChar_append

/-- A continuation byte. -/
def isContinuation (b : UInt8) : Bool :=
  0x80 ≤ b && b ≤ 0xBF

/-- Second bytes that can follow a three- or four-byte lead byte. -/
def secondByteOk (b₀ b₁ : UInt8) : Bool :=
  (b₀ == 0xE0 && 0xA0 ≤ b₁ && b₁ ≤ 0xBF) ||
  (0xE1 ≤ b₀ && b₀ ≤ 0xEC && 0x80 ≤ b₁ && b₁ ≤ 0xBF) ||
  (b₀ == 0xED && 0x80 ≤ b₁ && b₁ ≤ 0x9F) ||
  (0xEE ≤ b₀ && b₀ ≤ 0xEF && 0x80 ≤ b₁ && b₁ ≤ 0xBF) ||
  (b₀ == 0xF0 && 0x90 ≤ b₁ && b₁ ≤ 0xBF) ||
  (0xF1 ≤ b₀ && b₀ ≤ 0xF3 && 0x80 ≤ b₁ && b₁ ≤ 0xBF) ||
  (b₀ == 0xF4 && 0x80 ≤ b₁ && b₁ ≤ 0x8F)

/-- Length of the broken prefix of bytes that start with no encoding: the bytes
that could still begin one, or a single byte. -/
def brokenLength : Bytes → Nat
  | [] => 0
  | [_] => 1
  | [b₀, b₁] => if secondByteOk b₀ b₁ then 2 else 1
  | b₀ :: b₁ :: b₂ :: _ =>
      if secondByteOk b₀ b₁ then
        if 0xF0 ≤ b₀ && isContinuation b₂ then 3 else 2
      else 1

theorem brokenLength_le (bs : Bytes) : brokenLength bs ≤ bs.length := by
  unfold brokenLength
  split
  · simp
  · simp
  · split_ifs <;> simp
  · split_ifs <;> simp

theorem brokenLength_pos {bs : Bytes} (h : bs ≠ []) : 0 < brokenLength bs := by
  unfold brokenLength
  split
  · contradiction
  · exact Nat.one_pos
  · split_ifs <;> decide
  · split_ifs <;> decide

/-- One encoded scalar value, or a broken run of bytes. -/
inductive Piece where
  | scalar (c : Char)
  | broken (length : Nat)
deriving DecidableEq

/-- Cut the input into pieces; the counter skips bytes already consumed. -/
def scan : Nat → Bytes → List Piece
  | _, [] => []
  | skip + 1, _ :: bs => scan skip bs
  | 0, b :: bs =>
      match decodeChar? (b :: bs) with
      | some c => .scalar c :: scan (c.utf8Size - 1) bs
      | none => .broken (brokenLength (b :: bs)) :: scan (brokenLength (b :: bs) - 1) bs

/-- The pieces of a byte string. -/
def pieces (bs : Bytes) : List Piece := scan 0 bs

theorem scan_eq_pieces_drop (skip : Nat) (bs : Bytes) :
    scan skip bs = pieces (bs.drop skip) := by
  induction bs generalizing skip with
  | nil => simp [scan, pieces]
  | cons b bs ih =>
      cases skip with
      | zero => rfl
      | succ skip => simpa [scan] using ih skip

@[simp]
theorem pieces_nil : pieces [] = [] := rfl

/-- An encoded scalar value is one piece. -/
theorem pieces_encode_append (c : Char) (rest : Bytes) :
    pieces (String.utf8EncodeChar c ++ rest) = .scalar c :: pieces rest := by
  have hdecode : decodeChar? (String.utf8EncodeChar c ++ rest) = some c :=
    decodeChar?_eq_some_iff.mpr (List.prefix_append _ _)
  have hlen : (String.utf8EncodeChar c).length = c.utf8Size := by simp
  cases hencode : String.utf8EncodeChar c with
  | nil => exact (String.utf8EncodeChar_ne_nil hencode).elim
  | cons b bs =>
      rw [hencode] at hdecode hlen
      have hsize : c.utf8Size - 1 = bs.length := by
        rw [← hlen]
        rfl
      simp only [pieces, List.cons_append, scan] at hdecode ⊢
      rw [hdecode]
      simp only [hsize, scan_eq_pieces_drop]
      simp [pieces]

/-- Bytes that start with no encoding begin with a broken piece. -/
theorem pieces_of_broken {bs : Bytes} (hne : bs ≠ []) (h : decodeChar? bs = none) :
    pieces bs = .broken (brokenLength bs) :: pieces (bs.drop (brokenLength bs)) := by
  have hpos := brokenLength_pos hne
  cases bs with
  | nil => exact (hne rfl).elim
  | cons b bs =>
      have hscan : pieces (b :: bs) =
          .broken (brokenLength (b :: bs)) :: scan (brokenLength (b :: bs) - 1) bs := by
        rw [pieces, scan, h]
      rw [hscan, scan_eq_pieces_drop]
      generalize brokenLength (b :: bs) = n at hpos ⊢
      cases n with
      | zero => exact (Nat.lt_irrefl 0 hpos).elim
      | succ n => simp

/-- Induction along the pieces of a byte string. -/
theorem pieces_induction {P : Bytes → Prop} (nil : P [])
    (scalar : ∀ c rest, P rest → P (String.utf8EncodeChar c ++ rest))
    (broken : ∀ bs, bs ≠ [] → decodeChar? bs = none →
      P (bs.drop (brokenLength bs)) → P bs) :
    ∀ bs, P bs := by
  intro bs
  induction hn : bs.length using Nat.strongRecOn generalizing bs with
  | ind n ih =>
      by_cases hne : bs = []
      · rw [hne]
        exact nil
      · cases hdecode : decodeChar? bs with
        | some c =>
            rcases decodeChar?_eq_some_iff.mp hdecode with ⟨rest, rfl⟩
            apply scalar
            refine ih rest.length ?_ rest rfl
            have hpos := c.utf8Size_pos
            simp only [List.length_append, String.length_utf8EncodeChar] at hn
            omega
        | none =>
            apply broken bs hne hdecode
            refine ih _ ?_ _ rfl
            have hpos := brokenLength_pos hne
            have hle := brokenLength_le bs
            simp only [List.length_drop]
            omega

/-! ## The strict reading -/

/-- `std::str::Utf8Error`. -/
structure Utf8Error where
  validUpTo : Nat
  errorLen : Option Nat
deriving DecidableEq, Repr

/-- Display text of a `Utf8Error`. -/
def Utf8Error.message (e : Utf8Error) : String :=
  match e.errorLen with
  | some len => s!"invalid utf-8 sequence of {len} bytes from index {e.validUpTo}"
  | none => s!"incomplete utf-8 byte sequence from index {e.validUpTo}"

/-- Length reported for the broken bytes: none when the input ends inside a
sequence that could still be completed. -/
def errorLength (bs : Bytes) : Option Nat :=
  match bs with
  | [] => none
  | b :: _ =>
      if brokenLength bs = bs.length ∧ 0xC2 ≤ b ∧ b ≤ 0xF4 then none
      else some (brokenLength bs)

/-- Collect scalar values up to the first broken piece, whose offset is the error. -/
def collect : Nat → List Piece → Except Nat (List Char)
  | _, [] => .ok []
  | offset, .scalar c :: ps =>
      match collect (offset + c.utf8Size) ps with
      | .ok cs => .ok (c :: cs)
      | .error at' => .error at'
  | offset, .broken _ :: _ => .error offset

/-- `std::str::from_utf8`. -/
def fromUtf8 (bs : Bytes) : Except Utf8Error String :=
  match collect 0 (pieces bs) with
  | .ok cs => .ok (String.ofList cs)
  | .error offset => .error ⟨offset, errorLength (bs.drop offset)⟩

theorem pieces_encode (cs : List Char) :
    pieces (cs.flatMap String.utf8EncodeChar) = cs.map .scalar := by
  induction cs with
  | nil => rfl
  | cons c cs ih => rw [List.flatMap_cons, pieces_encode_append, ih, List.map_cons]

theorem collect_map_scalar (offset : Nat) (cs : List Char) :
    collect offset (cs.map .scalar) = .ok cs := by
  induction cs generalizing offset with
  | nil => rfl
  | cons c cs ih => simp [collect, ih]

/-- Collected scalar values spell the input. -/
theorem encode_of_collect {offset : Nat} {bs : Bytes} {cs : List Char}
    (h : collect offset (pieces bs) = .ok cs) :
    cs.flatMap String.utf8EncodeChar = bs := by
  induction bs using pieces_induction generalizing offset cs with
  | nil =>
      simp only [pieces_nil, collect, Except.ok.injEq] at h
      rw [← h]
      rfl
  | scalar c rest ih =>
      rw [pieces_encode_append] at h
      simp only [collect] at h
      split at h
      · rename_i ds hrest
        simp only [Except.ok.injEq] at h
        rw [← h, List.flatMap_cons, ih hrest]
      · simp at h
  | broken bs hne hdecode _ =>
      rw [pieces_of_broken hne hdecode] at h
      simp [collect] at h

/-- The strict reading returns exactly the string whose bytes were given. -/
theorem fromUtf8_eq_ok_iff {bs : Bytes} {s : String} :
    fromUtf8 bs = .ok s ↔ asBytes s = bs := by
  unfold fromUtf8
  constructor
  · intro h
    split at h
    · rename_i cs hcs
      simp only [Except.ok.injEq] at h
      rw [← h, asBytes_ofList, encode_of_collect hcs]
    · simp at h
  · rintro rfl
    rw [asBytes_eq_flatMap, pieces_encode, collect_map_scalar]
    simp

@[simp]
theorem fromUtf8_asBytes (s : String) : fromUtf8 (asBytes s) = .ok s :=
  fromUtf8_eq_ok_iff.mpr rfl

/-- Bytes that spell some string. -/
def IsUtf8 (bs : Bytes) : Prop := ∃ s, asBytes s = bs

instance (bs : Bytes) : Decidable (IsUtf8 bs) :=
  match h : fromUtf8 bs with
  | .ok s => .isTrue ⟨s, fromUtf8_eq_ok_iff.mp h⟩
  | .error e => .isFalse (by
      intro hutf8
      rcases hutf8 with ⟨s, hs⟩
      rw [fromUtf8_eq_ok_iff.mpr hs] at h
      cases h)

/-! ## The lossy reading -/

/-- The character a piece is read as. -/
def Piece.toChar : Piece → Char
  | .scalar c => c
  | .broken _ => '\uFFFD'

/-- `String::from_utf8_lossy`. -/
def toStringLossy (bs : Bytes) : String :=
  String.ofList ((pieces bs).map Piece.toChar)

theorem asBytes_toStringLossy (bs : Bytes) :
    asBytes (toStringLossy bs) =
      ((pieces bs).map Piece.toChar).flatMap String.utf8EncodeChar :=
  asBytes_ofList _

/-- Well-formed input is read unchanged. -/
@[simp]
theorem toStringLossy_asBytes (s : String) : toStringLossy (asBytes s) = s := by
  rw [toStringLossy, asBytes_eq_flatMap, pieces_encode, List.map_map]
  have hid : Piece.toChar ∘ Piece.scalar = id := rfl
  rw [hid, List.map_id, String.ofList_toList]

/-- The lossy reading leaves exactly the encodings of strings as they are. -/
theorem lossy_eq_self_iff {bs : Bytes} : asBytes (toStringLossy bs) = bs ↔ IsUtf8 bs := by
  constructor
  · intro h
    exact ⟨_, h⟩
  · intro h
    rcases h with ⟨s, rfl⟩
    rw [toStringLossy_asBytes]

/-- An encoding that reaches an ASCII byte ends before it. -/
theorem encode_prefix_append_ascii_iff {bs rest : Bytes} {a : UInt8} {c : Char}
    (hne : bs ≠ []) (ha : a.toNat < 0x80) :
    String.utf8EncodeChar c <+: bs ++ a :: rest ↔ String.utf8EncodeChar c <+: bs := by
  constructor
  · intro h
    by_contra hnot
    -- A longer encoding would have the ASCII byte among its continuation bytes.
    have hlong : bs ++ [a] <+: String.utf8EncodeChar c := by
      rcases List.prefix_or_prefix_of_prefix h (List.prefix_append bs (a :: rest)) with hp | hp
      · exact (hnot hp).elim
      · rcases hp with ⟨tail, htail⟩
        cases tail with
        | nil =>
            rw [List.append_nil] at htail
            exact (hnot (htail ▸ List.prefix_refl _)).elim
        | cons x xs =>
            rw [← htail] at h
            have hx := (List.prefix_append_right_inj bs).mp h
            have hxa : x = a := (List.cons_prefix_cons.mp hx).1
            refine ⟨xs, ?_⟩
            rw [← htail, hxa]
            simp
    rcases hlong with ⟨tail, htail⟩
    cases bs with
    | nil => exact hne rfl
    | cons b bs =>
        have hmem : a ∈ (String.utf8EncodeChar c).tail := by
          rw [← htail]
          simp
        have hcont := continuation_of_mem_tail hmem
        omega
  · intro h
    exact h.trans (List.prefix_append _ _)

theorem decodeChar?_append_ascii {bs rest : Bytes} {a : UInt8} (hne : bs ≠ [])
    (ha : a.toNat < 0x80) : decodeChar? (bs ++ a :: rest) = decodeChar? bs := by
  apply Option.ext
  intro c
  rw [decodeChar?_eq_some_iff, decodeChar?_eq_some_iff,
    encode_prefix_append_ascii_iff hne ha]

theorem secondByteOk_ascii {b a : UInt8} (ha : a.toNat < 0x80) :
    secondByteOk b a = false := by
  have hlt : a < 0x80 := UInt8.lt_iff_toNat_lt.mpr ha
  unfold secondByteOk
  grind

theorem isContinuation_ascii {a : UInt8} (ha : a.toNat < 0x80) :
    isContinuation a = false := by
  have hlt : a < 0x80 := UInt8.lt_iff_toNat_lt.mpr ha
  unfold isContinuation
  grind

theorem brokenLength_append_ascii {bs rest : Bytes} {a : UInt8} (hne : bs ≠ [])
    (ha : a.toNat < 0x80) : brokenLength (bs ++ a :: rest) = brokenLength bs := by
  match bs with
  | [] => exact (hne rfl).elim
  | [b₀] => cases rest <;> simp [brokenLength, secondByteOk_ascii ha]
  | [b₀, b₁] => simp [brokenLength, isContinuation_ascii ha]
  | b₀ :: b₁ :: b₂ :: bs => simp [brokenLength]

/-- An ASCII byte always starts a new piece. -/
theorem pieces_append_ascii (bs rest : Bytes) {a : UInt8} (ha : a.toNat < 0x80) :
    pieces (bs ++ a :: rest) = pieces bs ++ .scalar (asciiChar a) :: pieces rest := by
  induction bs using pieces_induction with
  | nil =>
      have h := pieces_encode_append (asciiChar a) rest
      rw [utf8EncodeChar_asciiChar ha] at h
      simpa using h
  | scalar c bs ih =>
      rw [List.append_assoc, pieces_encode_append, pieces_encode_append, ih]
      rfl
  | broken bs hne hdecode ih =>
      have hne' : bs ++ a :: rest ≠ [] := by simp
      have hdecode' : decodeChar? (bs ++ a :: rest) = none := by
        rw [decodeChar?_append_ascii hne ha, hdecode]
      rw [pieces_of_broken hne hdecode, pieces_of_broken hne' hdecode',
        brokenLength_append_ascii hne ha,
        List.drop_append_of_le_length (brokenLength_le bs), ih]
      rfl

/-- Text has no broken piece. -/
theorem isUtf8_iff_pieces {bs : Bytes} :
    IsUtf8 bs ↔ ∀ p ∈ pieces bs, ∃ c, p = .scalar c := by
  constructor
  · intro h p hp
    rcases h with ⟨s, rfl⟩
    rw [asBytes_eq_flatMap, pieces_encode] at hp
    rcases List.mem_map.mp hp with ⟨c, -, hc⟩
    exact ⟨c, hc.symm⟩
  · intro h
    have hscalars : ∀ ps : List Piece, (∀ p ∈ ps, ∃ c, p = .scalar c) →
        ∃ cs : List Char, ps = cs.map .scalar := by
      intro ps hps
      induction ps with
      | nil => exact ⟨[], rfl⟩
      | cons p ps ih =>
          rcases List.forall_mem_cons.mp hps with ⟨⟨c, rfl⟩, hrest⟩
          rcases ih hrest with ⟨cs, rfl⟩
          exact ⟨c :: cs, rfl⟩
    rcases hscalars (pieces bs) h with ⟨cs, hcs⟩
    have hcollect : collect 0 (pieces bs) = .ok cs := by
      rw [hcs, collect_map_scalar]
    exact ⟨String.ofList cs, by rw [asBytes_ofList, encode_of_collect hcollect]⟩

/-- Around an ASCII byte, text is text on either side. -/
theorem isUtf8_append_ascii {bs rest : Bytes} {a : UInt8} (ha : a.toNat < 0x80) :
    IsUtf8 (bs ++ a :: rest) ↔ IsUtf8 bs ∧ IsUtf8 rest := by
  rw [isUtf8_iff_pieces, isUtf8_iff_pieces, isUtf8_iff_pieces, pieces_append_ascii bs rest ha]
  simp only [List.mem_append, List.mem_cons, or_imp, forall_and, forall_eq]
  constructor
  · intro h
    exact ⟨h.1, h.2.2⟩
  · intro h
    exact ⟨h.1, ⟨_, rfl⟩, h.2⟩

@[simp]
theorem asBytes_append (s t : String) : asBytes (s ++ t) = asBytes s ++ asBytes t := by
  simp [asBytes]

/-- The lossy reading keeps an ASCII suffix in place. -/
theorem lossy_append_ascii (bs suffix : Bytes) (hascii : ∀ a ∈ suffix, a.toNat < 0x80) :
    asBytes (toStringLossy (bs ++ suffix)) = asBytes (toStringLossy bs) ++ suffix := by
  induction suffix generalizing bs with
  | nil => simp
  | cons a suffix ih =>
      have ha := hascii a (by simp)
      have hrest : ∀ b ∈ suffix, b.toNat < 0x80 := fun b hb => hascii b (by simp [hb])
      have hstep : bs ++ a :: suffix = (bs ++ [a]) ++ suffix := by simp
      rw [hstep, ih (bs ++ [a]) hrest, asBytes_toStringLossy, asBytes_toStringLossy,
        pieces_append_ascii bs [] ha]
      simp [Piece.toChar, utf8EncodeChar_asciiChar ha]

/-- A lossy reading that is all ASCII replaced nothing. -/
theorem lossy_eq_of_ascii {bs : Bytes}
    (h : ∀ a ∈ asBytes (toStringLossy bs), a.toNat < 0x80) :
    asBytes (toStringLossy bs) = bs := by
  induction bs using pieces_induction with
  | nil => rfl
  | scalar c rest ih =>
      rw [asBytes_toStringLossy, pieces_encode_append] at h ⊢
      simp only [List.map_cons, List.flatMap_cons, Piece.toChar] at h ⊢
      rw [← asBytes_toStringLossy] at h ⊢
      rw [ih fun a ha => h a (by simp [ha])]
  | broken bs hne hdecode _ =>
      rw [asBytes_toStringLossy, pieces_of_broken hne hdecode] at h
      have hlead := h 0xEF (by
        simp only [List.map_cons, List.flatMap_cons, Piece.toChar]
        exact List.mem_append_left _ (by decide))
      exact absurd hlead (by decide)

/-- An ASCII suffix of one encoding followed by more text lies in that text,
unless the encoding is a single ASCII byte. -/
theorem ascii_suffix_of_encode_append {c : Char} {text suffix : Bytes}
    (hascii : ∀ a ∈ suffix, a.toNat < 0x80)
    (h : suffix <:+ String.utf8EncodeChar c ++ text) :
    suffix <:+ text ∨ ∃ a, String.utf8EncodeChar c = [a] ∧ suffix = a :: text := by
  rcases h with ⟨lead, happend⟩
  rcases List.append_eq_append_iff.mp happend with ⟨front, hlead, hsuffix⟩ | ⟨front, -, htext⟩
  · cases front with
    | nil =>
        left
        have hsame : suffix = text := by rw [hsuffix, List.nil_append]
        cases hsame
        exact List.suffix_refl _
    | cons a front =>
        right
        have hmem : a ∈ String.utf8EncodeChar c := by
          rw [hlead]
          simp
        have ha : a.toNat < 0x80 := hascii a (by simp [hsuffix])
        have hone := (utf8EncodeChar_of_ascii_mem ha hmem).2
        refine ⟨a, hone, ?_⟩
        have hlen := congrArg List.length hlead
        simp only [hone, List.length_append, List.length_cons, List.length_nil] at hlen
        have hnil : front = [] := List.length_eq_zero_iff.mp (by omega)
        rw [hsuffix, hnil, List.singleton_append]
  · exact Or.inl ⟨front, htext.symm⟩

/-- The lossy reading neither adds nor removes an ASCII suffix. -/
theorem ascii_suffix_lossy_iff {bs suffix : Bytes} (hascii : ∀ a ∈ suffix, a.toNat < 0x80) :
    suffix <:+ asBytes (toStringLossy bs) ↔ suffix <:+ bs := by
  constructor
  · intro h
    induction bs using pieces_induction with
    | nil => exact h
    | scalar c rest ih =>
        rw [asBytes_toStringLossy, pieces_encode_append] at h
        simp only [List.map_cons, List.flatMap_cons, Piece.toChar] at h
        rw [← asBytes_toStringLossy] at h
        rcases ascii_suffix_of_encode_append hascii h with hrest | ⟨a, hone, hsuffix⟩
        · exact (ih hrest).trans (List.suffix_append _ _)
        · have hall : ∀ b ∈ asBytes (toStringLossy rest), b.toNat < 0x80 := fun b hb =>
            hascii b (by simp [hsuffix, hb])
          rw [hone, hsuffix, lossy_eq_of_ascii hall]
          exact List.suffix_refl _
    | broken bs hne hdecode ih =>
        rw [asBytes_toStringLossy, pieces_of_broken hne hdecode] at h
        simp only [List.map_cons, List.flatMap_cons, Piece.toChar] at h
        rw [← asBytes_toStringLossy] at h
        rcases ascii_suffix_of_encode_append hascii h with hrest | ⟨a, hone, -⟩
        · exact (ih hrest).trans (List.drop_suffix _ _)
        · have hlen := congrArg List.length hone
          rw [String.length_utf8EncodeChar, List.length_singleton] at hlen
          exact absurd hlen (by decide)
  · intro h
    rcases h with ⟨front, rfl⟩
    rw [lossy_append_ascii front suffix hascii]
    exact List.suffix_append _ _

end Machine
