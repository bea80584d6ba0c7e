import Upxz.Machine.CMemory
import Upxz.Machine.Decimal
import Upxz.Machine.UnixPath

/-!
# Loader - The temp path

The macOS loader writes `/tmp/upxz-app-<pid>` into a 64-byte buffer with a decimal
conversion of its own: the digits go into a scratch array least significant first and
are copied out backwards.  A byte that finds the buffer full is dropped without a
word.  The definitions follow `format_into` in `loader/src/main.rs`.

Main results:

- Theorem `formatInto_eq`: the formatter returns the prefix, the decimal text of the
  number and the suffix, as far as the buffer takes them.
- Theorem `tmpPath_eq`: a temp path is complete, with its final NUL.
- Theorem `tmpPath_exact`: so it is for every number, and different process ids have
  different temp paths.
-/

namespace Upxz
namespace Loader

open Machine

/-! ## The formatter -/

/-- Length of the path buffer. -/
def pathBufLen : Nat := 64

/-- Length of the scratch array for digits. -/
def digitsLen : Nat := 20

/-- A buffer and the number of bytes already in it. -/
structure Cursor where
  buf : Bytes
  i : Nat
deriving DecidableEq, Repr

/-- Append one byte, or drop it when the buffer is full. -/
def Cursor.push (c : Cursor) (b : UInt8) : Cursor :=
  if c.i < c.buf.length then ⟨c.buf.set c.i b, c.i + 1⟩ else c

/-- Append bytes one by one. -/
def Cursor.pushAll (c : Cursor) (bs : Bytes) : Cursor :=
  bs.foldl Cursor.push c

/-- Store the decimal digits of `m`, least significant first, from index `k` on.
`room` counts the slots left; storing past the last one panics. -/
def digitLoop : (room m k : Nat) → (digits : Bytes) → Except Panic (Bytes × Nat)
  | room, m, k, digits =>
      if m = 0 then .ok (digits, k)
      else
        match room with
        | 0 => .error .indexRange
        | room + 1 => do
            let digits ← store digits k (0x30 + UInt8.ofNat (m % 10))
            digitLoop room (m / 10) (k + 1) digits

/-- Append the first `k` stored digits, last one first. -/
def pushDigits (digits : Bytes) : (k : Nat) → Cursor → Except Panic Cursor
  | 0, c => .ok c
  | k + 1, c => do
      let b ← index digits k
      pushDigits digits k (c.push b)

/-- Format a prefix, a decimal number and a suffix into the path buffer. -/
def formatInto (lead : Bytes) (n : Nat) (suffix : Bytes) : Except Panic Bytes := do
  let c := Cursor.pushAll ⟨List.replicate pathBufLen 0, 0⟩ lead
  let c ←
    if n = 0 then .ok (c.push 0x30)
    else do
      let (digits, k) ← digitLoop digitsLen n 0 (List.replicate digitsLen 0)
      pushDigits digits k c
  let c := c.pushAll suffix
  slice c.buf 0 c.i

/-! ## The path buffer -/

/-- The buffer holds the given bytes, as far as it takes them. -/
structure Cursor.Holds (c : Cursor) (bs : Bytes) : Prop where
  index : c.i = min bs.length c.buf.length
  content : c.buf.take c.i = bs.take c.buf.length

@[simp]
theorem Cursor.push_length (c : Cursor) (b : UInt8) : (c.push b).buf.length = c.buf.length := by
  unfold Cursor.push
  split_ifs
  · exact List.length_set
  · rfl

/-- A pushed byte comes behind the others, or is dropped when the buffer is full. -/
theorem Cursor.Holds.push {c : Cursor} {bs : Bytes} (h : c.Holds bs) (b : UInt8) :
    (c.push b).Holds (bs ++ [b]) := by
  have hindex := h.index
  have hcontent := h.content
  unfold Cursor.push
  split_ifs with hroom
  · have hi : c.i = bs.length := by omega
    constructor
    · simp only [List.length_append, List.length_singleton, List.length_set]
      omega
    · rw [take_set_succ b hroom, hcontent, List.length_set, List.take_of_length_le (by omega),
        List.take_of_length_le (by rw [List.length_append, List.length_singleton]; omega)]
  · constructor
    · rw [List.length_append, List.length_singleton]
      omega
    · rw [hcontent, List.take_append_of_le_length (by omega)]

theorem Cursor.Holds.pushAll {c : Cursor} {bs : Bytes} (h : c.Holds bs) (more : Bytes) :
    (c.pushAll more).Holds (bs ++ more) := by
  unfold Cursor.pushAll
  induction more generalizing c bs with
  | nil =>
      rw [List.append_nil]
      exact h
  | cons b more ih =>
      have hrest := ih (h.push b)
      rwa [List.append_assoc] at hrest

@[simp]
theorem Cursor.pushAll_length (c : Cursor) (bs : Bytes) :
    (c.pushAll bs).buf.length = c.buf.length := by
  unfold Cursor.pushAll
  induction bs generalizing c with
  | nil => rfl
  | cons b bs ih =>
      rw [List.foldl_cons, ih, Cursor.push_length]

/-- An empty buffer holds nothing. -/
theorem holds_nil (buf : Bytes) : Cursor.Holds ⟨buf, 0⟩ [] where
  index := by rw [List.length_nil, Nat.zero_min]
  content := by rw [List.take_zero, List.take_nil]

/-- The filled part of the buffer. -/
theorem Cursor.Holds.slice {c : Cursor} {bs : Bytes} (h : c.Holds bs) :
    slice c.buf 0 c.i = .ok (bs.take c.buf.length) := by
  have hle : c.i ≤ c.buf.length := by
    rw [h.index]
    exact Nat.min_le_right _ _
  rw [slice_ok (Nat.zero_le _) hle, List.drop_zero, Nat.sub_zero, h.content]

/-! ## The digits -/

/-- What the scratch array holds of a number: its digits, least significant first. -/
def scratch (m : Nat) : Bytes :=
  if m = 0 then [] else (decimal m).reverse

theorem scratch_of_ne_zero {m : Nat} (h : m ≠ 0) :
    scratch m = digitByte (m % 10) :: scratch (m / 10) := by
  unfold scratch
  rw [if_neg h]
  by_cases hlt : m < 10
  · rw [decimal_of_lt hlt, if_pos (Nat.div_eq_of_lt hlt), Nat.mod_eq_of_lt hlt]
    rfl
  · rw [decimal_of_ge (Nat.not_lt.mp hlt), if_neg (by omega), List.reverse_append]
    rfl

/-- The digit loop stays inside its array while the number has no more digits than
slots, and puts the digits behind what was there. -/
theorem digitLoop_eq {room m k : Nat} {digits : Bytes} (hm : m < 10 ^ room)
    (hk : k + room = digits.length) :
    ∃ stored, digitLoop room m k digits = .ok (stored, k + (scratch m).length) ∧
      stored.take (k + (scratch m).length) = digits.take k ++ scratch m := by
  induction room generalizing m k digits with
  | zero =>
      have hzero : m = 0 := by simpa using hm
      subst hzero
      exact ⟨digits, by simp [digitLoop, scratch], by simp [scratch]⟩
  | succ room ih =>
      by_cases hzero : m = 0
      · subst hzero
        exact ⟨digits, by simp [digitLoop, scratch], by simp [scratch]⟩
      · have hroom : k < digits.length := by omega
        have hdiv : m / 10 < 10 ^ room := by
          rw [Nat.pow_succ] at hm
          omega
        have hlen : k + 1 + room = (digits.set k (digitByte (m % 10))).length := by
          rw [List.length_set]
          omega
        rcases ih hdiv hlen with ⟨stored, hloop, hstored⟩
        have hcount : k + (scratch m).length = k + 1 + (scratch (m / 10)).length := by
          rw [scratch_of_ne_zero hzero, List.length_cons]
          omega
        refine ⟨stored, ?_, ?_⟩
        · rw [digitLoop, if_neg hzero, store_ok _ hroom, hcount]
          exact hloop
        · rw [hcount, hstored, take_set_succ _ hroom, scratch_of_ne_zero hzero, List.append_assoc]
          rfl

/-- The stored digits are pushed last one first. -/
theorem pushDigits_eq {digits : Bytes} {k : Nat} (hk : k ≤ digits.length) (c : Cursor) :
    pushDigits digits k c = .ok (c.pushAll (digits.take k).reverse) := by
  induction k generalizing c with
  | zero => rfl
  | succ k ih =>
      have hget : digits[k]? = some digits[k] := List.getElem?_eq_getElem hk
      rw [pushDigits, index_ok hget, ok_bind, ih (Nat.le_of_lt hk),
        List.take_succ_eq_append_getElem hk, List.reverse_append]
      rfl

/-- The formatter returns the prefix, the number's text and the suffix, as far as the
buffer takes them: it indexes nothing out of range. -/
theorem formatInto_eq (lead suffix : Bytes) {n : Nat} (hn : n < 2 ^ 64) :
    formatInto lead n suffix = .ok ((lead ++ decimal n ++ suffix).take pathBufLen) := by
  have hlead : (Cursor.pushAll ⟨List.replicate pathBufLen 0, 0⟩ lead).Holds lead :=
    (holds_nil _).pushAll lead
  have hbuf : (Cursor.pushAll ⟨List.replicate pathBufLen 0, 0⟩ lead).buf.length = pathBufLen := by
    rw [Cursor.pushAll_length, List.length_replicate]
  unfold formatInto
  by_cases hzero : n = 0
  · have hall := (hlead.push 0x30).pushAll suffix
    rw [if_pos hzero, ok_bind]
    dsimp only
    rw [hall.slice, Cursor.pushAll_length, Cursor.push_length, hbuf, hzero]
    rfl
  · have hdigits : n < 10 ^ digitsLen := Nat.lt_of_lt_of_le hn (by decide)
    have hroom : 0 + digitsLen = (List.replicate digitsLen (0 : UInt8)).length := by
      rw [List.length_replicate, Nat.zero_add]
    rcases digitLoop_eq hdigits hroom with ⟨stored, hloop, hstored⟩
    have hcount : 0 + (scratch n).length ≤ stored.length := by
      have hlen := congrArg List.length hstored
      rw [List.length_take, List.take_zero, List.nil_append] at hlen
      omega
    have hreverse : (stored.take (0 + (scratch n).length)).reverse = decimal n := by
      rw [hstored, List.take_zero, List.nil_append, scratch, if_neg hzero, List.reverse_reverse]
    have hall := (hlead.pushAll (decimal n)).pushAll suffix
    rw [if_neg hzero, hloop, ok_bind]
    dsimp only
    rw [pushDigits_eq hcount, hreverse, ok_bind, hall.slice, Cursor.pushAll_length,
      Cursor.pushAll_length, hbuf]

/-- The formatter stays inside its buffers for every 64-bit number. -/
theorem formatInto_returns (lead suffix : Bytes) {n : Nat} (hn : n < 2 ^ 64) :
    ∃ path, formatInto lead n suffix = .ok path :=
  ⟨_, formatInto_eq lead suffix hn⟩

/-! ## Temp paths -/

/-- `/tmp/upxz-app-`. -/
def tmpPrefix : Bytes := asBytes "/tmp/upxz-app-"

/-- The temp path of a process, with its final NUL. -/
def tmpPath (pid : Nat) (h : pid < 2 ^ 64) : Path :=
  match hformat : formatInto tmpPrefix pid [0] with
  | .ok path => path
  | .error _ => False.elim (by
      rcases formatInto_returns tmpPrefix [0] h with ⟨path, hpath⟩
      rw [hpath] at hformat
      cases hformat)

/-- `pid as u64`: the sign of a `pid_t` is extended. -/
def pidAsU64 (pid : Int32) : UInt64 := pid.toInt64.toUInt64

/-- For a temp path the buffer is long enough. -/
theorem formatInto_tmpPrefix {n : Nat} (hn : n < 2 ^ 64) :
    formatInto tmpPrefix n [0] = .ok (tmpPrefix ++ decimal n ++ [0]) := by
  have hlead : tmpPrefix.length = 14 := by decide
  have hdigits : (decimal n).length ≤ 20 :=
    decimal_length_le (by decide) (Nat.lt_of_lt_of_le hn (by decide))
  rw [formatInto_eq _ _ hn, List.take_of_length_le]
  rw [List.length_append, List.length_append, List.length_singleton, hlead]
  unfold pathBufLen
  omega

/-- A temp path is complete, with its final NUL. -/
theorem tmpPath_eq {pid : Nat} (h : pid < 2 ^ 64) :
    tmpPath pid h = tmpPrefix ++ decimal pid ++ [0] := by
  unfold tmpPath
  split
  · rename_i path hpath
    rw [formatInto_tmpPrefix h] at hpath
    exact (Except.ok.inj hpath).symm
  · rename_i why hwhy
    rw [formatInto_tmpPrefix h] at hwhy
    cases hwhy

/-- `open` and `execv` read it up to that NUL. -/
theorem readCString_tmpPath {pid : Nat} (h : pid < 2 ^ 64) :
    readCString (tmpPath pid h) = some (tmpPrefix ++ decimal pid) := by
  have hprefix : 0 ∉ tmpPrefix := by decide
  rw [tmpPath_eq, readCString_concat]
  intro hzero
  rcases List.mem_append.mp hzero with hzero | hzero
  · exact hprefix hzero
  · exact zero_not_mem_decimal pid hzero

/-- Different numbers have different temp paths. -/
theorem tmpPath_inj {m n : Nat} (hm : m < 2 ^ 64) (hn : n < 2 ^ 64) :
    tmpPath m hm = tmpPath n hn ↔ m = n := by
  rw [tmpPath_eq, tmpPath_eq]
  constructor
  · intro h
    exact decimal_injective (List.append_cancel_left (List.append_cancel_right h))
  · intro h
    rw [h]

theorem pidAsU64_inj {p q : Int32} : pidAsU64 p = pidAsU64 q ↔ p = q := by
  constructor
  · intro h
    have hwide : p.toInt64 = q.toInt64 := by
      rw [← Int64.toInt64_toUInt64 p.toInt64, ← Int64.toInt64_toUInt64 q.toInt64]
      exact congrArg UInt64.toInt64 h
    apply Int32.toInt_inj.mp
    rw [← Int32.toInt_toInt64, hwide, Int32.toInt_toInt64]
  · intro h
    rw [h]

/-- For every number the temp path is the prefix, the number's decimal digits without a
zero in front, and one NUL, which is where `open` and `execv` stop reading; different
numbers, and so different process ids, have different temp paths. -/
theorem tmpPath_exact :
    (∀ n : UInt64,
      formatInto tmpPrefix n.toNat [0] = .ok (tmpPrefix ++ decimal n.toNat ++ [0]) ∧
      IsDecimal n.toNat (decimal n.toNat) ∧
      readCString (tmpPath n.toNat n.toNat_lt) = some (tmpPrefix ++ decimal n.toNat)) ∧
    (∀ m n : UInt64, tmpPath m.toNat m.toNat_lt = tmpPath n.toNat n.toNat_lt ↔ m = n) ∧
    ∀ p q : Int32, tmpPath (pidAsU64 p).toNat (pidAsU64 p).toNat_lt =
      tmpPath (pidAsU64 q).toNat (pidAsU64 q).toNat_lt ↔ p = q := by
  refine ⟨?_, ?_, ?_⟩
  · intro n
    exact ⟨formatInto_tmpPrefix n.toNat_lt, isDecimal_decimal n.toNat, readCString_tmpPath _⟩
  · intro m n
    rw [tmpPath_inj, UInt64.toNat_inj]
  · intro p q
    rw [tmpPath_inj, UInt64.toNat_inj, pidAsU64_inj]

end Loader
end Upxz
