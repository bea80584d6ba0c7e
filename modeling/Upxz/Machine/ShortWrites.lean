import Upxz.Machine.Exec

/-!
# Machine - Writing a buffer through short writes

A `write` call may take fewer bytes than it was offered, so programs call it in
a loop.  The file is written in place at the loop's own offset: bytes beyond the
last one written keep what the file held before.

Main results:

- Theorem `writeLoop_done`: if every call takes at least one byte and no more
  than it was offered, the loop ends with the whole buffer in place, over
  whatever the file held before.
- Theorem `eq_of_writeLoop_done`: a loop that is done has the whole buffer in place.
- Theorem `overlay_length_eq_iff`: nothing of the old file shows exactly when it
  was no longer than the buffer.
- Theorem `writeLoop_cases`: whatever the calls answer, a loop that retries is done
  exactly when they take the buffer, fails exactly when one of them fails first, or is
  still going.
-/

namespace Machine

/-- Errno of a failed system call. -/
abbrev Errno := Nat

/-- Results of successive `write` calls: the number of the call and the number
of bytes offered to it decide how many bytes it takes, or its error. -/
abbrev WriteCalls := Nat → Nat → Except Errno Nat

/-- Every call takes between one byte and all the bytes it was offered. -/
def WriteCalls.Short (write : WriteCalls) : Prop :=
  ∀ call offered, 0 < offered → ∃ n, write call offered = .ok n ∧ 1 ≤ n ∧ n ≤ offered

/-- No call that succeeds takes no byte at all. -/
def WriteCalls.Advances (write : WriteCalls) : Prop :=
  ∀ call offered, 0 < offered → write call offered ≠ .ok 0

/-- The calls from this one on take all of the bytes that are left, piece by piece and
without an error. -/
inductive WriteCalls.Takes (write : WriteCalls) : (call left : Nat) → Prop where
  | all (call : Nat) : write.Takes call 0
  | step {call left n : Nat} (pending : 0 < left) (took : write call left = .ok n)
      (rest : write.Takes (call + 1) (left - n)) : write.Takes call left

/-- What a write loop does when a call takes no byte at all. -/
inductive OnZero where
  | retry
  | giveUp
deriving DecidableEq, Repr

/-- How a write loop ends, with the file as it left it. -/
inductive WriteResult where
  | done (content : Bytes)
  | failed (errno : Option Errno) (content : Bytes)
  | running (content : Bytes)
deriving DecidableEq, Repr

/-- The file as a write loop left it. -/
def WriteResult.content : WriteResult → Bytes
  | .done content => content
  | .failed _ content => content
  | .running content => content

/-- Overwrite the file in place from the given offset on. -/
def writeAt (content : Bytes) (offset : Nat) (chunk : Bytes) : Bytes :=
  content.take offset ++ chunk ++ content.drop (offset + chunk.length)

/-- Write `data` from offset `written` on, in at most `fuel` calls. -/
def writeLoop (onZero : OnZero) (write : WriteCalls) (data : Bytes) :
    (fuel call written : Nat) → (content : Bytes) → WriteResult
  | 0, _, written, content =>
      if written < data.length then .running content else .done content
  | fuel + 1, call, written, content =>
      if written < data.length then
        match write call (data.length - written) with
        | .error errno => .failed (some errno) content
        | .ok n =>
            if n = 0 ∧ onZero = .giveUp then .failed none content
            else
              writeLoop onZero write data fuel (call + 1) (written + n)
                (writeAt content written ((data.drop written).take n))
      else .done content

/-- The file with the first `written` bytes of the buffer in place. -/
def overlay (data content : Bytes) (written : Nat) : Bytes :=
  data.take written ++ content.drop written

@[simp]
theorem overlay_zero (data content : Bytes) : overlay data content 0 = content := by
  simp [overlay]

/-- One call moves the overlay forward by the bytes it took. -/
theorem writeAt_overlay {data content : Bytes} {written n : Nat}
    (h : written + n ≤ data.length) :
    writeAt (overlay data content written) written ((data.drop written).take n) =
      overlay data content (written + n) := by
  have htake : (data.take written).length = written := by
    rw [List.length_take]
    omega
  have hchunk : ((data.drop written).take n).length = n := by
    rw [List.length_take, List.length_drop]
    omega
  unfold writeAt overlay
  rw [hchunk, List.take_left' htake]
  have hdrop : (data.take written ++ content.drop written).drop (written + n) =
      content.drop (written + n) := by
    rw [← List.drop_drop, List.drop_left' htake, List.drop_drop]
  rw [hdrop, List.take_add]

/-- With short writes the loop ends with the whole buffer in place. -/
theorem writeLoop_done {onZero : OnZero} {write : WriteCalls} (hshort : write.Short)
    (data content : Bytes) {fuel call written : Nat} (hwritten : written ≤ data.length)
    (hfuel : data.length - written ≤ fuel) :
    writeLoop onZero write data fuel call written (overlay data content written) =
      .done (overlay data content data.length) := by
  induction fuel generalizing call written with
  | zero =>
      have hend : written = data.length := by omega
      simp [writeLoop, hend]
  | succ fuel ih =>
      by_cases hlt : written < data.length
      · rcases hshort call (data.length - written) (by omega) with ⟨n, hn, hpos, hle⟩
        have hnz : ¬(n = 0 ∧ onZero = .giveUp) := fun h => by omega
        rw [writeLoop, if_pos hlt, hn]
        simp only [if_neg hnz]
        rw [writeAt_overlay (by omega)]
        exact ih (by omega) (by omega)
      · have hend : written = data.length := by omega
        simp [writeLoop, hend]

/-- However its writes went, a loop that is done has the whole buffer in place. -/
theorem eq_of_writeLoop_done {onZero : OnZero} {write : WriteCalls} (hshort : write.Short)
    {data content out : Bytes} {fuel call written : Nat} (hwritten : written ≤ data.length)
    (h : writeLoop onZero write data fuel call written (overlay data content written) =
      .done out) : out = overlay data content data.length := by
  induction fuel generalizing call written with
  | zero =>
      by_cases hlt : written < data.length
      · rw [writeLoop, if_pos hlt] at h
        cases h
      · have hend : written = data.length := by omega
        rw [writeLoop, if_neg hlt, hend] at h
        cases h
        rfl
  | succ fuel ih =>
      by_cases hlt : written < data.length
      · rcases hshort call (data.length - written) (by omega) with ⟨n, hn, hpos, hle⟩
        have hnz : ¬(n = 0 ∧ onZero = .giveUp) := fun h => by omega
        rw [writeLoop, if_pos hlt, hn] at h
        simp only [if_neg hnz] at h
        rw [writeAt_overlay (by omega)] at h
        exact ih (by omega) h
      · have hend : written = data.length := by omega
        rw [writeLoop, if_neg hlt, hend] at h
        cases h
        rfl

/-! ## Calls that may fail -/

section Failing

variable {onZero : OnZero} {write : WriteCalls} {data content : Bytes} {fuel call written : Nat}

theorem WriteCalls.not_takes_of_error {left errno : Nat} (hleft : 0 < left)
    (h : write call left = .error errno) : ¬write.Takes call left := by
  intro htakes
  cases htakes with
  | all => omega
  | step _ took _ =>
      rw [h] at took
      cases took

/-- A call that succeeds leaves the rest to the calls after it. -/
theorem WriteCalls.takes_iff_of_ok {left n : Nat} (hleft : 0 < left)
    (h : write call left = .ok n) : write.Takes call left ↔ write.Takes (call + 1) (left - n) := by
  constructor
  · intro htakes
    cases htakes with
    | all => omega
    | step _ took rest =>
        rw [h] at took
        cases took
        exact rest
  · intro rest
    exact .step hleft h rest

/-- Short writes take every buffer. -/
theorem WriteCalls.Short.takes (hshort : write.Short) (call left : Nat) :
    write.Takes call left := by
  induction left using Nat.strongRecOn generalizing call with
  | ind left ih =>
      rcases Nat.eq_zero_or_pos left with rfl | hleft
      · exact .all call
      · rcases hshort call left hleft with ⟨n, hn, hpos, -⟩
        exact .step hleft hn (ih (left - n) (by omega) (call + 1))

/-- A loop with a byte to write makes one call and goes on after it. -/
theorem writeLoop_succ_of_ok {n : Nat} (hlt : written < data.length)
    (hn : write call (data.length - written) = .ok n) :
    writeLoop .retry write data (fuel + 1) call written content =
      writeLoop .retry write data fuel (call + 1) (written + n)
        (writeAt content written ((data.drop written).take n)) := by
  rw [writeLoop, if_pos hlt, hn]
  exact if_neg fun h => OnZero.noConfusion h.2

theorem writeLoop_succ_of_error {errno : Errno} (hlt : written < data.length)
    (herror : write call (data.length - written) = .error errno) :
    writeLoop onZero write data (fuel + 1) call written content =
      .failed (some errno) content := by
  rw [writeLoop, if_pos hlt, herror]

theorem writeLoop_of_le (hle : data.length ≤ written) :
    writeLoop onZero write data fuel call written content = .done content := by
  cases fuel with
  | zero => rw [writeLoop, if_neg (by omega)]
  | succ fuel => rw [writeLoop, if_neg (by omega)]

/-- One call into an empty file. -/
theorem writeAt_take {n : Nat} :
    writeAt (data.take written) written ((data.drop written).take n) =
      data.take (written + n) := by
  have hrest : (data.take written).drop (written + ((data.drop written).take n).length) = [] :=
    List.drop_eq_nil_of_le (Nat.le_trans (List.length_take_le _ _) (Nat.le_add_right _ _))
  rw [writeAt, List.take_take, Nat.min_self, hrest, List.append_nil, List.take_add]

/-- A loop into an empty file is done with the whole buffer in place if its calls take the
buffer, fails if one of them fails first, or is still going. -/
theorem writeLoop_cases (write : WriteCalls) (data : Bytes) (fuel call written : Nat) :
    writeLoop .retry write data fuel call written (data.take written) = .done data ∧
        write.Takes call (data.length - written) ∨
      (∃ errno content, writeLoop .retry write data fuel call written (data.take written) =
          .failed (some errno) content) ∧
        ¬write.Takes call (data.length - written) ∨
      ∃ content, writeLoop .retry write data fuel call written (data.take written) =
        .running content := by
  rcases Nat.lt_or_ge written data.length with hlt | hle
  · induction fuel generalizing call written with
    | zero => exact Or.inr (Or.inr ⟨data.take written, by rw [writeLoop, if_pos hlt]⟩)
    | succ fuel ih =>
        cases hcall : write call (data.length - written) with
        | error errno =>
            right
            left
            exact ⟨⟨errno, _, writeLoop_succ_of_error hlt hcall⟩,
              WriteCalls.not_takes_of_error (by omega) hcall⟩
        | ok n =>
            rw [writeLoop_succ_of_ok hlt hcall, writeAt_take,
              WriteCalls.takes_iff_of_ok (by omega) hcall, Nat.sub_sub]
            rcases Nat.lt_or_ge (written + n) data.length with hnext | hend
            · exact ih (call + 1) (written + n) hnext
            · left
              rw [writeLoop_of_le hend, List.take_of_length_le hend, Nat.sub_eq_zero_of_le hend]
              exact ⟨rfl, .all (call + 1)⟩
  · left
    rw [writeLoop_of_le hle, List.take_of_length_le hle, Nat.sub_eq_zero_of_le hle]
    exact ⟨rfl, .all call⟩

/-- Calls that take the buffer let the loop end. -/
theorem WriteCalls.Takes.exists_done {left : Nat} (h : write.Takes call left)
    (hleft : data.length - written = left) :
    ∃ fuel, writeLoop .retry write data fuel call written (data.take written) = .done data := by
  induction h generalizing written with
  | all call =>
      refine ⟨0, ?_⟩
      rw [writeLoop_of_le (by omega), List.take_of_length_le (by omega)]
  | @step call left n pending took rest ih =>
      rcases ih (show data.length - (written + n) = left - n by omega) with ⟨fuel, hfuel⟩
      refine ⟨fuel + 1, ?_⟩
      rw [writeLoop_succ_of_ok (by omega) (by rwa [hleft]), writeAt_take]
      exact hfuel

/-- More turns change nothing for a loop that has ended. -/
theorem writeLoop_mono {fuel' : Nat} (hle : fuel ≤ fuel') :
    (∃ out, writeLoop onZero write data fuel call written content = .running out) ∨
      writeLoop onZero write data fuel' call written content =
        writeLoop onZero write data fuel call written content := by
  induction fuel generalizing fuel' call written content with
  | zero =>
      rcases Nat.lt_or_ge written data.length with hlt | hend
      · exact Or.inl ⟨content, by rw [writeLoop, if_pos hlt]⟩
      · exact Or.inr (by rw [writeLoop_of_le hend, writeLoop_of_le hend])
  | succ fuel ih =>
      rcases fuel' with - | fuel'
      · omega
      · rcases Nat.lt_or_ge written data.length with hlt | hend
        · cases hcall : write call (data.length - written) with
          | error errno =>
              right
              rw [writeLoop_succ_of_error hlt hcall, writeLoop_succ_of_error hlt hcall]
          | ok n =>
              simp only [writeLoop, if_pos hlt, hcall]
              split_ifs
              · exact Or.inr rfl
              · exact ih (by omega)
        · right
          rw [writeLoop_of_le hend, writeLoop_of_le hend]

/-- With calls that advance, as many turns as bytes are enough. -/
theorem writeLoop_ne_running (hadvances : write.Advances) (hfuel : data.length - written ≤ fuel)
    (out : Bytes) : writeLoop onZero write data fuel call written content ≠ .running out := by
  induction fuel generalizing call written content with
  | zero =>
      rw [writeLoop_of_le (by omega)]
      exact WriteResult.noConfusion
  | succ fuel ih =>
      rcases Nat.lt_or_ge written data.length with hlt | hend
      · cases hcall : write call (data.length - written) with
        | error errno =>
            rw [writeLoop_succ_of_error hlt hcall]
            exact WriteResult.noConfusion
        | ok n =>
            have hpos : n ≠ 0 := by
              rintro rfl
              exact hadvances call _ (by omega) hcall
            simp only [writeLoop, if_pos hlt, hcall, if_neg (show ¬(n = 0 ∧ onZero = .giveUp)
              from fun h => hpos h.1)]
            exact ih (by omega)
      · rw [writeLoop_of_le hend]
        exact WriteResult.noConfusion

end Failing

/-- A buffer at least as long as the old file replaces it entirely. -/
theorem overlay_length_eq_iff {data content : Bytes} :
    overlay data content data.length = data ↔ content.length ≤ data.length := by
  unfold overlay
  rw [List.take_length, List.append_right_eq_self]
  exact List.drop_eq_nil_iff

end Machine
