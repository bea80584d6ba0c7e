import Upxz.Machine.Utf8

/-!
# Machine - Decimal numbers as bytes

The text of a number in base ten, as the bytes a formatter has to produce: at least
one digit, the most significant first, and no zero in front of another digit.

Main results:

- Theorem `isDecimal_decimal`: the standard text of a number is such a string, and
  its value is the number.
- Theorem `decimal_injective`: different numbers have different texts.
- Theorem `decimal_length_le`: a number below `10 ^ k` has at most `k` digits.
- Theorem `eq_of_toLower_numbered`: a name with a number in it tells the number.
-/

namespace Machine

/-! ## Digits -/

/-- The byte of a decimal digit. -/
def digitByte (d : Nat) : UInt8 := 0x30 + UInt8.ofNat d

/-- The text of a number in base ten. -/
def decimal (n : Nat) : Bytes := asBytes (toString n)

/-- The number a string of digits stands for. -/
def decimalValue (bs : Bytes) : Nat :=
  bs.foldl (fun value b => 10 * value + (b.toNat - 0x30)) 0

/-- The string is the text of the number: digits that stand for it, with no zero in
front. -/
structure IsDecimal (n : Nat) (bs : Bytes) : Prop where
  ne_nil : bs ≠ []
  digits : ∀ b ∈ bs, ∃ d < 10, b = digitByte d
  value : decimalValue bs = n
  no_leading_zero : n ≠ 0 → bs.head? ≠ some (digitByte 0)

theorem digitByte_toNat {d : Nat} (h : d < 10) : (digitByte d).toNat = 0x30 + d := by
  unfold digitByte
  rw [UInt8.toNat_add, UInt8.toNat_ofNat']
  change (0x30 + d % 2 ^ 8) % 2 ^ 8 = 0x30 + d
  omega

theorem digitByte_eq_zero_iff {d : Nat} (h : d < 10) : digitByte d = digitByte 0 ↔ d = 0 := by
  constructor
  · intro heq
    have hnat := congrArg UInt8.toNat heq
    rw [digitByte_toNat h, digitByte_toNat (by decide)] at hnat
    omega
  · intro hd
    rw [hd]

theorem asBytes_singleton_digitChar {d : Nat} (h : d < 10) :
    asBytes (String.singleton d.digitChar) = [digitByte d] := by
  have hall : ∀ d : Fin 10, asBytes (String.singleton d.val.digitChar) = [digitByte d.val] := by
    decide
  exact hall ⟨d, h⟩

/-! ## One digit at a time -/

theorem decimal_of_lt {n : Nat} (h : n < 10) : decimal n = [digitByte n] := by
  rw [decimal, Nat.toString_eq_repr, Nat.repr_of_lt h, asBytes_singleton_digitChar h]

theorem decimal_of_ge {n : Nat} (h : 10 ≤ n) :
    decimal n = decimal (n / 10) ++ [digitByte (n % 10)] := by
  unfold decimal
  rw [Nat.toString_eq_repr, Nat.toString_eq_repr, Nat.repr_of_ge h, asBytes_append,
    asBytes_singleton_digitChar (Nat.mod_lt n (by decide))]

theorem decimalValue_concat (bs : Bytes) (b : UInt8) :
    decimalValue (bs ++ [b]) = 10 * decimalValue bs + (b.toNat - 0x30) := by
  unfold decimalValue
  rw [List.foldl_append]
  rfl

theorem isDecimal_of_lt {n : Nat} (h : n < 10) : IsDecimal n [digitByte n] where
  ne_nil := List.cons_ne_nil _ _
  digits := by
    intro b hb
    exact ⟨n, h, List.mem_singleton.mp hb⟩
  value := by
    change 10 * 0 + ((digitByte n).toNat - 0x30) = n
    rw [digitByte_toNat h]
    omega
  no_leading_zero := by
    intro hne hhead
    exact hne ((digitByte_eq_zero_iff h).mp (Option.some.inj hhead))

/-- A digit behind a number that is not zero. -/
theorem IsDecimal.concat {m d : Nat} {bs : Bytes} (h : IsDecimal m bs) (hm : m ≠ 0)
    (hd : d < 10) : IsDecimal (10 * m + d) (bs ++ [digitByte d]) where
  ne_nil := List.append_ne_nil_of_left_ne_nil h.ne_nil _
  digits := by
    intro b hb
    rcases List.mem_append.mp hb with hb | hb
    · exact h.digits b hb
    · exact ⟨d, hd, List.mem_singleton.mp hb⟩
  value := by
    rw [decimalValue_concat, h.value, digitByte_toNat hd]
    omega
  no_leading_zero := by
    intro _ hhead
    rw [List.head?_append_of_ne_nil _ h.ne_nil] at hhead
    exact h.no_leading_zero hm hhead

/-- The standard text of a number is its digits, without a zero in front. -/
theorem isDecimal_decimal (n : Nat) : IsDecimal n (decimal n) := by
  induction n using Nat.strongRecOn with
  | ind n ih =>
      by_cases hlt : n < 10
      · rw [decimal_of_lt hlt]
        exact isDecimal_of_lt hlt
      · rw [decimal_of_ge (Nat.not_lt.mp hlt)]
        have hdigit := (ih (n / 10) (by omega)).concat (by omega) (Nat.mod_lt n (by decide))
        rwa [Nat.div_add_mod] at hdigit

/-- Different numbers have different texts. -/
theorem decimal_injective : Function.Injective decimal := by
  intro m n h
  rw [← (isDecimal_decimal m).value, h, (isDecimal_decimal n).value]

theorem zero_not_mem_decimal (n : Nat) : 0 ∉ decimal n := by
  intro hzero
  rcases (isDecimal_decimal n).digits 0 hzero with ⟨d, hd, heq⟩
  have hnat := congrArg UInt8.toNat heq
  rw [digitByte_toNat hd] at hnat
  change 0 = 0x30 + d at hnat
  omega

/-- A number below `10 ^ k` has at most `k` digits. -/
theorem decimal_length_le {n k : Nat} (hk : 0 < k) (h : n < 10 ^ k) : (decimal n).length ≤ k := by
  induction k generalizing n with
  | zero => exact (Nat.lt_irrefl 0 hk).elim
  | succ k ih =>
      by_cases hlt : n < 10
      · rw [decimal_of_lt hlt, List.length_singleton]
        exact hk
      · have hpos : 0 < k := by
          apply Nat.pos_of_ne_zero
          intro hzero
          rw [hzero] at h
          exact hlt h
        have hdiv : n / 10 < 10 ^ k := by
          rw [Nat.pow_succ] at h
          omega
        rw [decimal_of_ge (Nat.not_lt.mp hlt), List.length_append, List.length_singleton]
        exact Nat.succ_le_succ (ih hpos hdiv)

/-! ## Numbered names -/

theorem isDigit_of_mem_toString {c : Char} {n : Nat} (h : c ∈ (toString n).toList) :
    c.isDigit = true := by
  rw [Nat.toString_eq_repr, Nat.toList_repr] at h
  exact Nat.isDigit_of_mem_toDigits (by decide) (by decide) h

theorem toLower_of_isDigit {c : Char} (h : c.isDigit = true) : c.toLower = c := by
  simp only [Char.isDigit, Bool.and_eq_true, decide_eq_true_eq] at h
  unfold Char.toLower
  rw [dif_neg]
  rintro ⟨hupper, -⟩
  have hbelow : (65 : UInt32) ≤ 57 := UInt32.le_trans hupper h.2
  exact absurd hbelow (by decide)

/-- A name with a number between a lead and a hyphen. -/
def numbered (lead : String) (n : Nat) (rest : String) : String :=
  lead ++ toString n ++ "-" ++ rest

/-- The digits of the number, in a name in lower case. -/
theorem takeWhile_toLower_numbered (lead : String) (n : Nat) (rest : String) :
    ((numbered lead n rest).toLower.toList.drop lead.length).takeWhile Char.isDigit =
      (toString n).toList := by
  have hall : ∀ c ∈ (toString n).toList, c.isDigit = true := fun _ hc =>
    isDigit_of_mem_toString hc
  have hdigits : (toString n).toList.map Char.toLower = (toString n).toList :=
    List.map_congr_left (fun c hc => toLower_of_isDigit (hall c hc)) |>.trans (List.map_id _)
  have hlead : (lead.toList.map Char.toLower).length = lead.length := by
    rw [List.length_map, String.length_toList]
  have hhyphen : "-".toList.map Char.toLower = ['-'] := by decide
  have hlower : (numbered lead n rest).toLower = (numbered lead n rest).map Char.toLower := rfl
  rw [hlower]
  simp only [numbered, String.toList_map, String.toList_append, List.map_append,
    List.append_assoc]
  rw [List.drop_left' hlead, hdigits, hhyphen, List.takeWhile_append_of_pos hall]
  simp

/-- Such a name tells its number, however its letters are read. -/
theorem eq_of_toLower_numbered {lead rest rest' : String} {m n : Nat}
    (h : (numbered lead m rest).toLower = (numbered lead n rest').toLower) : m = n := by
  have hlists : (toString m).toList = (toString n).toList := by
    rw [← takeWhile_toLower_numbered lead m rest, h, takeWhile_toLower_numbered]
  exact decimal_injective (congrArg asBytes (String.toList_inj.mp hlists))

end Machine
