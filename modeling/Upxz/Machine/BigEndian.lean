import Mathlib.Tactic.Ring
import Upxz.Machine.Exec

/-!
# Machine - Big-endian byte fields

Fixed-width unsigned integers stored most significant byte first.  A field of
`w` bytes is written by `toBE w` and read by `ofBE`; the two are inverse on
values below `256 ^ w` and on byte strings of length `w`.

Main results:

- Theorem `ofBE_toBE`: reading a written field returns the value modulo
  `256 ^ w`.
- Theorem `toBE_ofBE`: writing a read field returns the same bytes.
- Theorem `ofBE_append`: two adjacent fields read as one number.
-/

namespace Machine

/-- The `w` big-endian bytes of `n`; higher digits are dropped. -/
def toBE : Nat → Nat → Bytes
  | 0, _ => []
  | w + 1, n => UInt8.ofNat (n / 256 ^ w % 256) :: toBE w n

/-- The number whose big-endian bytes are given. -/
def ofBE : Bytes → Nat
  | [] => 0
  | b :: bs => b.toNat * 256 ^ bs.length + ofBE bs

/-- `u32::to_be_bytes`. -/
abbrev be32 (n : Nat) : Bytes := toBE 4 n

/-- `u64::to_be_bytes`. -/
abbrev be64 (n : Nat) : Bytes := toBE 8 n

@[simp]
theorem toBE_length (w n : Nat) : (toBE w n).length = w := by
  induction w with
  | zero => rfl
  | succ w ih => simp [toBE, ih]

theorem ofBE_lt (bs : Bytes) : ofBE bs < 256 ^ bs.length := by
  induction bs with
  | nil => simp [ofBE]
  | cons b bs ih =>
      have hb : b.toNat < 256 := b.toNat_lt
      have hmul : (b.toNat + 1) * 256 ^ bs.length ≤ 256 * 256 ^ bs.length :=
        Nat.mul_le_mul_right _ hb
      simp only [ofBE, List.length_cons, Nat.pow_succ]
      rw [Nat.add_mul, Nat.one_mul] at hmul
      omega

theorem ofBE_lt_of_length_le {bs : Bytes} {w : Nat} (h : bs.length ≤ w) : ofBE bs < 256 ^ w :=
  Nat.lt_of_lt_of_le (ofBE_lt bs) (Nat.pow_le_pow_right (by decide) h)

/-- Reading a written field returns the value, less the digits that did not fit. -/
theorem ofBE_toBE (w n : Nat) : ofBE (toBE w n) = n % 256 ^ w := by
  induction w with
  | zero => simp [toBE, ofBE, Nat.mod_one]
  | succ w ih =>
      have hdigit : (UInt8.ofNat (n / 256 ^ w % 256)).toNat = n / 256 ^ w % 256 := by
        rw [UInt8.toNat_ofNat']
        exact Nat.mod_eq_of_lt (Nat.mod_lt _ (by decide))
      simp only [toBE, ofBE, toBE_length, ih, hdigit]
      rw [Nat.pow_succ, Nat.mod_mul, Nat.mul_comm, Nat.add_comm]

theorem ofBE_toBE_of_lt {w n : Nat} (h : n < 256 ^ w) : ofBE (toBE w n) = n := by
  rw [ofBE_toBE, Nat.mod_eq_of_lt h]

/-- Digits above the field do not change what is written. -/
theorem toBE_add_mul (w n k : Nat) : toBE w (k * 256 ^ w + n) = toBE w n := by
  induction w generalizing k with
  | zero => rfl
  | succ w ih =>
      have hdiv : (k * 256 ^ (w + 1) + n) / 256 ^ w % 256 = n / 256 ^ w % 256 := by
        have hpos : 0 < 256 ^ w := Nat.pow_pos (by decide)
        rw [Nat.pow_succ, ← Nat.mul_assoc, Nat.mul_right_comm, Nat.add_comm,
          Nat.add_mul_div_right _ _ hpos, Nat.add_mul_mod_self_right]
      have hrest : toBE w (k * 256 ^ (w + 1) + n) = toBE w n := by
        rw [Nat.pow_succ, ← Nat.mul_assoc, Nat.mul_right_comm]
        exact ih (k * 256)
      simp only [toBE, hdiv, hrest]

/-- Writing a read field returns the same bytes. -/
theorem toBE_ofBE (bs : Bytes) : toBE bs.length (ofBE bs) = bs := by
  induction bs with
  | nil => rfl
  | cons b bs ih =>
      have hlt := ofBE_lt bs
      have hdigit : (b.toNat * 256 ^ bs.length + ofBE bs) / 256 ^ bs.length = b.toNat := by
        have hpos : 0 < 256 ^ bs.length := Nat.pow_pos (by decide)
        rw [Nat.add_comm, Nat.add_mul_div_right _ _ hpos, Nat.div_eq_of_lt hlt, Nat.zero_add]
      have hb : b.toNat % 256 = b.toNat := Nat.mod_eq_of_lt b.toNat_lt
      simp only [List.length_cons, toBE, ofBE, hdigit, hb, toBE_add_mul, ih,
        UInt8.ofNat_toNat]

/-- Writing the value read from a field of known width returns the field. -/
theorem toBE_eq_of_ofBE {w n : Nat} {bs : Bytes} (hlen : bs.length = w) (h : ofBE bs = n) :
    toBE w n = bs := by
  rw [← h, ← hlen, toBE_ofBE]

/-- Two adjacent fields read as one number. -/
theorem ofBE_append (xs ys : Bytes) :
    ofBE (xs ++ ys) = ofBE xs * 256 ^ ys.length + ofBE ys := by
  induction xs with
  | nil => simp [ofBE]
  | cons x xs ih =>
      simp only [List.cons_append, ofBE, ih, List.length_append, Nat.pow_add]
      ring

/-! ## Fields inside a byte string -/

/-- `u32::from_be_bytes([bs[i], bs[i + 1], bs[i + 2], bs[i + 3]])`. -/
def readBE32 (bs : Bytes) (i : Nat) : Except Panic Nat := do
  let b₀ ← index bs i
  let b₁ ← index bs (i + 1)
  let b₂ ← index bs (i + 2)
  let b₃ ← index bs (i + 3)
  return ofBE [b₀, b₁, b₂, b₃]

/-- Four in-range bytes are read as one number. -/
theorem readBE32_ok {bs : Bytes} {i : Nat} (h : i + 4 ≤ bs.length) :
    readBE32 bs i = .ok (ofBE ((bs.drop i).take 4)) := by
  have hlen : 4 ≤ (bs.drop i).length := by
    rw [List.length_drop]
    omega
  rcases hdrop : bs.drop i with _ | ⟨b₀, _ | ⟨b₁, _ | ⟨b₂, _ | ⟨b₃, rest⟩⟩⟩⟩
  all_goals rw [hdrop] at hlen
  · simp at hlen
  · simp at hlen
  · simp at hlen
  · simp at hlen
  have hget : ∀ k, bs[i + k]? = (bs.drop i)[k]? := fun k => List.getElem?_drop.symm
  have h₀ : bs[i]? = some b₀ := by simpa [hdrop] using hget 0
  have h₁ : bs[i + 1]? = some b₁ := by simpa [hdrop] using hget 1
  have h₂ : bs[i + 2]? = some b₂ := by simpa [hdrop] using hget 2
  have h₃ : bs[i + 3]? = some b₃ := by simpa [hdrop] using hget 3
  simp [readBE32, index_ok h₀, index_ok h₁, index_ok h₂, index_ok h₃, pure, Except.pure]

/-- `u64::from_be_bytes` of the eight bytes from `bs[i]` on. -/
def readBE64 (bs : Bytes) (i : Nat) : Except Panic Nat := do
  let high ← readBE32 bs i
  let low ← readBE32 bs (i + 4)
  return high * 2 ^ 32 + low

/-- Eight in-range bytes are read as one number. -/
theorem readBE64_ok {bs : Bytes} {i : Nat} (h : i + 8 ≤ bs.length) :
    readBE64 bs i = .ok (ofBE ((bs.drop i).take 8)) := by
  have hlow : ((bs.drop (i + 4)).take 4).length = 4 := by
    rw [List.length_take, List.length_drop]
    omega
  have hsplit : (bs.drop i).take 8 = (bs.drop i).take 4 ++ (bs.drop (i + 4)).take 4 := by
    rw [← List.drop_drop, ← List.take_add]
  unfold readBE64
  rw [readBE32_ok (by omega), ok_bind, readBE32_ok (by omega), ok_bind, hsplit, ofBE_append,
    hlow]
  rfl

end Machine
