import Upxz.Compress
import Upxz.Loader.Parse
import Upxz.Machine.Loop

/-!
# Loader - The decompress-and-grow loop

Step 5 of `loader/src/main.rs`.  The loader takes the size of its output buffer
from the frame header, or guesses it from the compressed length, and doubles it
after every failed decompression until one succeeds or the buffer passes a cap.

Main results:

- Theorem `growLoop_succeeds_iff`: a payload within the cap is decompressed exactly
  when its frame declares its size or a doubling of the guess falls between its
  size and the cap.
- Theorem `growLoop_terminates_iff`: the loop ends exactly when the frame declares a
  size other than zero, or some attempt with an empty buffer succeeds.
-/

namespace Upxz
namespace Loader

open Machine Format

/-! ## The loop -/

/-- `ZSTD_CONTENTSIZE_UNKNOWN`. -/
def zstdContentsizeUnknown : UInt64 := 0xFFFFFFFFFFFFFFFF

/-- `ZSTD_CONTENTSIZE_ERROR`. -/
def zstdContentsizeError : UInt64 := 0xFFFFFFFFFFFFFFFE

/-- Exit code for a zstd failure. -/
def exitDecompress : Nat := 76

/-- Sanity cap on the output buffer, 1 GiB. -/
def maxOut : Nat := 2 ^ 30

/-- The calls step 5 makes.  A decompression context keeps its state from one
attempt to the next, so an attempt may depend on its number; a failed one returns
the number of its error. -/
structure Libraries where
  frameContentSize : Bytes → UInt64
  createDctx : Bool
  malloc : (attempt size : Nat) → Bool
  decompressDctx : (attempt capacity : Nat) → Bytes → Except Nat Bytes

/-- The loop's variables: how often it went round, and the size of the buffer. -/
structure Grow where
  attempt : Nat
  outSize : Nat
deriving DecidableEq, Repr

/-- First size of the output buffer. -/
def firstOutSize (libs : Libraries) (payload : Bytes) : Nat :=
  let declared := libs.frameContentSize payload
  if declared = zstdContentsizeUnknown ∨ declared = zstdContentsizeError then
    max (saturatingMul payload.length 16) 4096
  else declared.toNat

/-- What the loader says past the cap. -/
def capAbort : Abort where
  message := "upxz-loader: decompressed size exceeds 1 GiB sanity cap\n"
  exitCode := exitDecompress

/-- One turn of the loop. -/
def growTurn (libs : Libraries) (payload : Bytes) (g : Grow) : Turn Grow (Except Abort Bytes) :=
  if maxOut < g.outSize then .leave (.error capAbort)
  else if libs.malloc g.attempt g.outSize = false then
    .leave (.error ⟨"upxz-loader: out of memory allocating decompression buffer\n", exitIo⟩)
  else
    match libs.decompressDctx g.attempt g.outSize payload with
    | .ok original => .leave (.ok original)
    | .error _ => .again ⟨g.attempt + 1, saturatingMul g.outSize 2⟩

/-- The loop, for at most `fuel` turns. -/
def growLoop (libs : Libraries) (fuel : Nat) (payload : Bytes) : Exec Abort Bytes :=
  match turns (growTurn libs payload) fuel ⟨0, firstOutSize libs payload⟩ with
  | some (.ok original) => .ok original
  | some (.error abort) => .error (.err abort)
  | none => .error .timeout

/-- Step 5: decompress the payload. -/
def decompressApp (libs : Libraries) (fuel : Nat) (payload : Bytes) : Exec Abort Bytes :=
  if libs.createDctx then growLoop libs fuel payload
  else
    .error (.err ⟨"upxz-loader: cannot create zstd decompression context\n", exitDecompress⟩)

/-- Steps 1 to 5: the name for the exec vector, and the restored original. -/
def restoreApp (libs : Libraries) (fuel : Nat) (file : Bytes) : Exec Abort (Bytes × Bytes) := do
  let app ← parseFile file
  let original ← decompressApp libs fuel app.payload
  return (app.nameCString, original)

/-! ## One turn -/

/-- `malloc` never fails. -/
def Libraries.MallocSucceeds (libs : Libraries) : Prop :=
  ∀ attempt size, libs.malloc attempt size = true

/-- Decompressing the payload succeeds into every buffer that holds the original, and
fails into every smaller one. -/
def Libraries.Decodes (libs : Libraries) (payload original : Bytes) : Prop :=
  ∀ attempt capacity,
    (original.length ≤ capacity → libs.decompressDctx attempt capacity payload = .ok original) ∧
    (capacity < original.length →
      ∃ e, libs.decompressDctx attempt capacity payload = .error e)

section Turns

variable {libs : Libraries} {payload : Bytes}

/-- Past the cap the loop gives up. -/
theorem growTurn_of_cap {g : Grow} (h : maxOut < g.outSize) :
    growTurn libs payload g = .leave (.error capAbort) :=
  if_pos h

/-- Up to the cap a turn is one attempt: it leaves with the original, or the buffer is
doubled, which cannot saturate there. -/
theorem growTurn_of_le (hmalloc : libs.MallocSucceeds) {g : Grow} (h : g.outSize ≤ maxOut) :
    growTurn libs payload g =
      match libs.decompressDctx g.attempt g.outSize payload with
      | .ok original => .leave (.ok original)
      | .error _ => .again ⟨g.attempt + 1, g.outSize * 2⟩ := by
  have hdouble : saturatingMul g.outSize 2 = g.outSize * 2 := by
    apply saturatingMul_of_lt
    unfold maxOut at h
    unfold usizeValues
    omega
  have halloc : ¬libs.malloc g.attempt g.outSize = false := by
    rw [hmalloc]
    exact Bool.noConfusion
  unfold growTurn
  rw [if_neg (Nat.not_lt.mpr h), if_neg halloc, hdouble]

theorem growTurn_of_ok (hmalloc : libs.MallocSucceeds) {g : Grow} {original : Bytes}
    (h : g.outSize ≤ maxOut)
    (hok : libs.decompressDctx g.attempt g.outSize payload = .ok original) :
    growTurn libs payload g = .leave (.ok original) := by
  rw [growTurn_of_le hmalloc h, hok]

theorem growTurn_of_error (hmalloc : libs.MallocSucceeds) {g : Grow} {e : Nat}
    (h : g.outSize ≤ maxOut)
    (herror : libs.decompressDctx g.attempt g.outSize payload = .error e) :
    growTurn libs payload g = .again ⟨g.attempt + 1, g.outSize * 2⟩ := by
  rw [growTurn_of_le hmalloc h, herror]

/-- Everything a turn can do: give up past the cap, succeed, or double the buffer after a
failed attempt. -/
theorem growTurn_cases (payload : Bytes) (hmalloc : libs.MallocSucceeds) (g : Grow) :
    growTurn libs payload g = .leave (.error capAbort) ∨
      g.outSize ≤ maxOut ∧
        ((∃ original, libs.decompressDctx g.attempt g.outSize payload = .ok original ∧
            growTurn libs payload g = .leave (.ok original)) ∨
          ∃ e, libs.decompressDctx g.attempt g.outSize payload = .error e ∧
            growTurn libs payload g = .again ⟨g.attempt + 1, g.outSize * 2⟩) := by
  by_cases hcap : maxOut < g.outSize
  · exact Or.inl (growTurn_of_cap hcap)
  · have hle := Nat.not_lt.mp hcap
    refine Or.inr ⟨hle, ?_⟩
    cases hresult : libs.decompressDctx g.attempt g.outSize payload with
    | ok original => exact Or.inl ⟨original, rfl, growTurn_of_ok hmalloc hle hresult⟩
    | error e => exact Or.inr ⟨e, rfl, growTurn_of_error hmalloc hle hresult⟩

/-- A turn that goes round again was below the cap, failed, and doubled the buffer. -/
theorem eq_of_growTurn_again (hmalloc : libs.MallocSucceeds) {g g' : Grow}
    (h : growTurn libs payload g = .again g') :
    g.outSize ≤ maxOut ∧ (∃ e, libs.decompressDctx g.attempt g.outSize payload = .error e) ∧
      g' = ⟨g.attempt + 1, g.outSize * 2⟩ := by
  rcases growTurn_cases payload hmalloc g with
    hturn | ⟨hle, ⟨original, -, hturn⟩ | ⟨e, he, hturn⟩⟩
  · rw [hturn] at h
    cases h
  · rw [hturn] at h
    cases h
  · rw [hturn] at h
    cases h
    exact ⟨hle, ⟨e, he⟩, rfl⟩

/-- A turn that leaves gave up at the cap, or succeeded below it. -/
theorem eq_of_growTurn_leave (hmalloc : libs.MallocSucceeds) {g : Grow}
    {result : Except Abort Bytes} (h : growTurn libs payload g = .leave result) :
    result = .error capAbort ∨
      g.outSize ≤ maxOut ∧ ∃ original, result = .ok original ∧
        libs.decompressDctx g.attempt g.outSize payload = .ok original := by
  rcases growTurn_cases payload hmalloc g with
    hturn | ⟨hle, ⟨original, hok, hturn⟩ | ⟨e, -, hturn⟩⟩
  · rw [hturn] at h
    cases h
    exact Or.inl rfl
  · rw [hturn] at h
    cases h
    exact Or.inr ⟨hle, original, rfl, hok⟩
  · rw [hturn] at h
    cases h

/-! ## Success -/

/-- The loop restores the original exactly when it leaves with it. -/
theorem exists_growLoop_ok_iff {original : Bytes} :
    (∃ fuel, growLoop libs fuel payload = .ok original) ↔
      LeavesWith (growTurn libs payload) ⟨0, firstOutSize libs payload⟩ (.ok original) := by
  rw [← exists_turns_iff]
  apply exists_congr
  intro fuel
  unfold growLoop
  split
  · simp [*]
  · simp [*]
  · simp [*]

/-- A buffer that an attempt succeeded with holds the original. -/
theorem Libraries.Decodes.length_le {original out : Bytes} (h : libs.Decodes payload original)
    {attempt capacity : Nat} (hok : libs.decompressDctx attempt capacity payload = .ok out) :
    original.length ≤ capacity := by
  by_contra hsmall
  rcases (h attempt capacity).2 (Nat.not_le.mp hsmall) with ⟨e, he⟩
  rw [hok] at he
  cases he

/-- A loop that succeeded came to a buffer that holds the original and is within the cap. -/
theorem exists_doubling_of_leavesWith (hmalloc : libs.MallocSucceeds) {original out : Bytes}
    (hdecodes : libs.Decodes payload original) {g : Grow} {result : Except Abort Bytes}
    (h : LeavesWith (growTurn libs payload) g result) (hresult : result = .ok out) :
    ∃ k, original.length ≤ g.outSize * 2 ^ k ∧ g.outSize * 2 ^ k ≤ maxOut := by
  induction h with
  | now hturn =>
      rcases eq_of_growTurn_leave hmalloc hturn with habort | ⟨hle, _, -, hok⟩
      · rw [habort] at hresult
        cases hresult
      · refine ⟨0, ?_⟩
        rw [Nat.pow_zero, Nat.mul_one]
        exact ⟨hdecodes.length_le hok, hle⟩
  | later hturn _ ih =>
      rcases eq_of_growTurn_again hmalloc hturn with ⟨-, -, rfl⟩
      rcases ih hresult with ⟨k, hk⟩
      refine ⟨k + 1, ?_⟩
      rw [Nat.pow_succ', ← Nat.mul_assoc]
      exact hk

/-- A loop with such a buffer ahead succeeds, there or before. -/
theorem leavesWith_of_doubling (hmalloc : libs.MallocSucceeds) {original : Bytes}
    (hdecodes : libs.Decodes payload original) {attempt size k : Nat}
    (hfits : original.length ≤ size * 2 ^ k) (hle : size * 2 ^ k ≤ maxOut) :
    LeavesWith (growTurn libs payload) ⟨attempt, size⟩ (.ok original) := by
  induction k generalizing attempt size with
  | zero =>
      rw [Nat.pow_zero, Nat.mul_one] at hfits hle
      exact .now (growTurn_of_ok hmalloc hle ((hdecodes attempt size).1 hfits))
  | succ k ih =>
      rw [Nat.pow_succ', ← Nat.mul_assoc] at hfits hle
      have hsize : size ≤ maxOut := by
        apply Nat.le_trans _ hle
        rw [Nat.mul_assoc]
        apply Nat.le_mul_of_pos_right
        exact Nat.mul_pos (by decide) (Nat.two_pow_pos k)
      by_cases hnow : original.length ≤ size
      · exact .now (growTurn_of_ok hmalloc hsize ((hdecodes attempt size).1 hnow))
      · rcases (hdecodes attempt size).2 (Nat.not_le.mp hnow) with ⟨e, he⟩
        exact .later (growTurn_of_error hmalloc hsize he) (ih hfits hle)

/-- From a given buffer size on, the loop succeeds exactly when one of its doublings
holds the original and is within the cap. -/
theorem leavesWith_ok_iff (hmalloc : libs.MallocSucceeds) {original : Bytes}
    (hdecodes : libs.Decodes payload original) {attempt size : Nat} :
    LeavesWith (growTurn libs payload) ⟨attempt, size⟩ (.ok original) ↔
      ∃ k, original.length ≤ size * 2 ^ k ∧ size * 2 ^ k ≤ maxOut := by
  constructor
  · intro h
    exact exists_doubling_of_leavesWith hmalloc hdecodes h rfl
  · intro h
    rcases h with ⟨k, hfits, hle⟩
    exact leavesWith_of_doubling hmalloc hdecodes hfits hle

/-- A declared size within the cap is the first size tried. -/
theorem firstOutSize_of_declared (h : (libs.frameContentSize payload).toNat ≤ maxOut) :
    firstOutSize libs payload = (libs.frameContentSize payload).toNat := by
  have hdeclared : ¬(libs.frameContentSize payload = zstdContentsizeUnknown ∨
      libs.frameContentSize payload = zstdContentsizeError) := by
    intro hsentinel
    rcases hsentinel with hunknown | herror
    · rw [hunknown] at h
      exact absurd h (by decide)
    · rw [herror] at h
      exact absurd h (by decide)
  exact if_neg hdeclared

theorem firstOutSize_of_unknown (h : libs.frameContentSize payload = zstdContentsizeUnknown) :
    firstOutSize libs payload = max (saturatingMul payload.length 16) 4096 :=
  if_pos (Or.inl h)

/-- A guess that saturates is past the cap like the exact one. -/
theorem exists_doubling_saturating_iff (len need : Nat) :
    (∃ k, need ≤ max (saturatingMul len 16) 4096 * 2 ^ k ∧
        max (saturatingMul len 16) 4096 * 2 ^ k ≤ maxOut) ↔
      ∃ k, need ≤ max (16 * len) 4096 * 2 ^ k ∧ max (16 * len) 4096 * 2 ^ k ≤ maxOut := by
  by_cases hlt : len * 16 < usizeValues
  · rw [saturatingMul_of_lt hlt, Nat.mul_comm len 16]
  · have hpast : ∀ guess, usizeValues - 1 ≤ guess → ∀ k, ¬guess * 2 ^ k ≤ maxOut := by
      intro guess hguess k hle
      have hmul : guess ≤ guess * 2 ^ k := Nat.le_mul_of_pos_right guess (Nat.two_pow_pos k)
      unfold usizeValues at hguess
      unfold maxOut at hle
      omega
    rw [saturatingMul_of_le (Nat.not_lt.mp hlt)]
    constructor
    · intro h
      rcases h with ⟨k, -, hle⟩
      exact (hpast _ (Nat.le_max_left _ _) k hle).elim
    · intro h
      rcases h with ⟨k, -, hle⟩
      have hguess : usizeValues - 1 ≤ max (16 * len) 4096 := by
        apply Nat.le_trans _ (Nat.le_max_left _ _)
        omega
      exact (hpast _ hguess k hle).elim

end Turns

/-- A payload whose original is within the cap, in a frame that declares its size or
keeps it unknown, is restored exactly when the size is declared or some doubling of
`max (16 * payload.length) 4096` lies between the original's size and the cap. -/
theorem growLoop_succeeds_iff {libs : Libraries} {payload original : Bytes}
    (hmalloc : libs.MallocSucceeds) (hdecodes : libs.Decodes payload original)
    (hcap : original.length ≤ maxOut)
    (hdeclared : (libs.frameContentSize payload).toNat = original.length ∨
      libs.frameContentSize payload = zstdContentsizeUnknown) :
    (∃ fuel, growLoop libs fuel payload = .ok original) ↔
      (libs.frameContentSize payload).toNat = original.length ∨
        ∃ k, original.length ≤ max (16 * payload.length) 4096 * 2 ^ k ∧
          max (16 * payload.length) 4096 * 2 ^ k ≤ maxOut := by
  rw [exists_growLoop_ok_iff, leavesWith_ok_iff hmalloc hdecodes]
  by_cases hsize : (libs.frameContentSize payload).toNat = original.length
  · have hfirst : firstOutSize libs payload = original.length := by
      rw [firstOutSize_of_declared (by rw [hsize]; exact hcap), hsize]
    have hfits : ∃ k, original.length ≤ original.length * 2 ^ k ∧
        original.length * 2 ^ k ≤ maxOut := ⟨0, by omega, by omega⟩
    rw [hfirst]
    simp only [hfits, hsize, true_or]
  · have hunknown := hdeclared.resolve_left hsize
    rw [firstOutSize_of_unknown hunknown, exists_doubling_saturating_iff]
    simp only [hsize, false_or]

/-- Libraries that know one frame: the size it declares and what it decodes to.  The
error numbers are those of an unknown frame and of a buffer that is too small. -/
def oneFrameLibraries (declared : UInt64) (frame original : Bytes) : Libraries where
  frameContentSize payload := if payload = frame then declared else zstdContentsizeError
  createDctx := true
  malloc _ _ := true
  decompressDctx _ capacity payload :=
    if payload = frame then
      if original.length ≤ capacity then .ok original else .error 70
    else .error 10

theorem oneFrameLibraries_mallocSucceeds (declared : UInt64) (frame original : Bytes) :
    (oneFrameLibraries declared frame original).MallocSucceeds :=
  fun _ _ => rfl

theorem oneFrameLibraries_frameContentSize (declared : UInt64) (frame original : Bytes) :
    (oneFrameLibraries declared frame original).frameContentSize frame = declared :=
  if_pos rfl

theorem oneFrameLibraries_decodes (declared : UInt64) (frame original : Bytes) :
    (oneFrameLibraries declared frame original).Decodes frame original := by
  intro attempt capacity
  constructor
  · intro hfits
    simp only [oneFrameLibraries, if_pos hfits, if_true]
  · intro hsmall
    exact ⟨70, by simp only [oneFrameLibraries, if_neg (Nat.not_le.mpr hsmall), if_true]⟩

/-- A two-byte original in a frame that keeps its size unknown is restored. -/
theorem growLoop_succeeds_hi :
    ∃ fuel, growLoop (oneFrameLibraries zstdContentsizeUnknown (storedFrame (asBytes "hi"))
      (asBytes "hi")) fuel (storedFrame (asBytes "hi")) = .ok (asBytes "hi") :=
  (growLoop_succeeds_iff (oneFrameLibraries_mallocSucceeds _ _ _)
      (oneFrameLibraries_decodes _ _ _) (by decide)
      (Or.inr (oneFrameLibraries_frameContentSize _ _ _))).mpr
    (Or.inr ⟨0, by decide, by decide⟩)

/-- Data of one raw block of the largest size. -/
def blockData : Bytes := List.replicate 131072 0x90

/-- A raw block of the largest size; its lowest header bit marks the last one. -/
def rawBlock (last : UInt8) : Bytes := [last, 0x00, 0x10] ++ blockData

/-- An original of 64 MiB. -/
def bigOriginal : Bytes := (List.replicate 512 blockData).flatten

/-- `bigOriginal` as a zstd frame of raw blocks, which is what the encoder makes of
input it cannot shrink; the frame does not declare its size. -/
def bigFrame : Bytes :=
  [0x28, 0xB5, 0x2F, 0xFD, 0x00, 0x68] ++ (List.replicate 511 (rawBlock 0)).flatten ++ rawBlock 1

theorem blockData_length : blockData.length = 131072 := by
  rw [blockData, List.length_replicate]

theorem rawBlock_length (last : UInt8) : (rawBlock last).length = 131075 := by
  rw [rawBlock, List.length_append, blockData_length]
  simp only [List.length_cons, List.length_nil]

theorem bigOriginal_length : bigOriginal.length = 67108864 := by
  rw [bigOriginal, List.length_flatten, List.map_replicate, List.sum_replicate_nat,
    blockData_length]

theorem bigFrame_length : bigFrame.length = 67110406 := by
  have hblocks : (List.replicate 511 (rawBlock 0)).flatten.length = 66979325 := by
    rw [List.length_flatten, List.map_replicate, List.sum_replicate_nat, rawBlock_length]
  rw [bigFrame, List.length_append, List.length_append, hblocks, rawBlock_length]
  simp only [List.length_cons, List.length_nil]

/-- The first guess for `bigFrame` is already past the cap, and the loop gives up on an
original of a sixteenth of the cap. -/
theorem growLoop_gives_up_on_big_frame :
    bigOriginal.length ≤ maxOut ∧
      (oneFrameLibraries zstdContentsizeUnknown bigFrame bigOriginal).MallocSucceeds ∧
      (oneFrameLibraries zstdContentsizeUnknown bigFrame bigOriginal).Decodes
        bigFrame bigOriginal ∧
      (oneFrameLibraries zstdContentsizeUnknown bigFrame bigOriginal).frameContentSize
        bigFrame = zstdContentsizeUnknown ∧
      ∀ fuel, growLoop (oneFrameLibraries zstdContentsizeUnknown bigFrame bigOriginal) fuel
        bigFrame ≠ .ok bigOriginal := by
  have hsize := oneFrameLibraries_frameContentSize zstdContentsizeUnknown bigFrame bigOriginal
  refine ⟨by rw [bigOriginal_length]; decide, oneFrameLibraries_mallocSucceeds _ _ _,
    oneFrameLibraries_decodes _ _ _, hsize, ?_⟩
  intro fuel hok
  have hfirst : maxOut < firstOutSize
      (oneFrameLibraries zstdContentsizeUnknown bigFrame bigOriginal) bigFrame := by
    rw [firstOutSize_of_unknown hsize, bigFrame_length]
    decide
  generalize hlibs : oneFrameLibraries zstdContentsizeUnknown bigFrame bigOriginal = libs at *
  have hleaves := exists_growLoop_ok_iff.mp ⟨fuel, hok⟩
  have hcap : growTurn libs bigFrame ⟨0, firstOutSize libs bigFrame⟩ = .leave (.error capAbort) :=
    growTurn_of_cap hfirst
  have habort := hleaves.unique (.now hcap)
  cases habort

/-! ## Termination -/

section Termination

variable {libs : Libraries} {payload : Bytes}

/-- The loop ends when it leaves with the original or at the cap. -/
theorem exists_growLoop_ends_iff (hmalloc : libs.MallocSucceeds) :
    (∃ fuel, (∃ original, growLoop libs fuel payload = .ok original) ∨
        growLoop libs fuel payload = .error (.err capAbort)) ↔
      ∃ result, LeavesWith (growTurn libs payload) ⟨0, firstOutSize libs payload⟩ result := by
  constructor
  · intro h
    rcases h with ⟨fuel, hends⟩
    unfold growLoop at hends
    cases hturns : turns (growTurn libs payload) fuel ⟨0, firstOutSize libs payload⟩ with
    | none =>
        rw [hturns] at hends
        simp at hends
    | some result => exact ⟨result, exists_turns_iff.mp ⟨fuel, hturns⟩⟩
  · intro h
    rcases h with ⟨result, hleaves⟩
    have hresult : result = .error capAbort ∨ ∃ original, result = .ok original := by
      refine LeavesWith.post (I := fun _ => True)
        (Q := fun result => result = .error capAbort ∨ ∃ original, result = .ok original)
        (fun _ _ _ _ => trivial) ?_ hleaves trivial
      intro g result _ hturn
      rcases eq_of_growTurn_leave hmalloc hturn with hcap | ⟨-, original, hok, -⟩
      · exact Or.inl hcap
      · exact Or.inr ⟨original, hok⟩
    rcases exists_turns_iff.mpr hleaves with ⟨fuel, hturns⟩
    refine ⟨fuel, ?_⟩
    unfold growLoop
    rw [hturns]
    rcases hresult with rfl | ⟨original, rfl⟩
    · exact Or.inr rfl
    · exact Or.inl ⟨original, rfl⟩

/-- A buffer that is not empty grows until it passes the cap, so the loop leaves. -/
theorem leaves_of_pos (hmalloc : libs.MallocSucceeds) {g : Grow} (hpos : 0 < g.outSize) :
    ∃ result, LeavesWith (growTurn libs payload) g result := by
  refine exists_leavesWith_of_variant (I := fun g => 0 < g.outSize)
    (fun g => maxOut + 1 - g.outSize) ?_ hpos
  intro g g' hpos hturn
  rcases eq_of_growTurn_again hmalloc hturn with ⟨hle, -, rfl⟩
  dsimp only
  exact ⟨by omega, by omega⟩

/-- An empty buffer stays empty, so the loop leaves when an attempt with it succeeds. -/
theorem leaves_of_zero_of_ok (hmalloc : libs.MallocSucceeds) {attempt : Nat} {original : Bytes}
    (hok : libs.decompressDctx attempt 0 payload = .ok original) :
    ∃ result, LeavesWith (growTurn libs payload) ⟨0, 0⟩ result := by
  refine exists_leavesWith_of_variant (I := fun g => g.outSize = 0 ∧ g.attempt ≤ attempt)
    (fun g => attempt - g.attempt) ?_ ⟨rfl, Nat.zero_le _⟩
  intro g g' hg hturn
  rcases eq_of_growTurn_again hmalloc hturn with ⟨-, ⟨e, he⟩, rfl⟩
  rcases hg with ⟨hzero, hle⟩
  have hne : g.attempt ≠ attempt := by
    intro heq
    rw [hzero, heq, hok] at he
    cases he
  dsimp only
  exact ⟨⟨by omega, by omega⟩, by omega⟩

/-- With an empty buffer and attempts that all fail the loop goes round for ever. -/
theorem not_leaves_of_zero (hmalloc : libs.MallocSucceeds)
    (hfail : ∀ attempt original, libs.decompressDctx attempt 0 payload ≠ .ok original)
    (result : Except Abort Bytes) : ¬LeavesWith (growTurn libs payload) ⟨0, 0⟩ result := by
  refine not_leavesWith_of_invariant (I := fun g => g.outSize = 0) ?_ rfl result
  intro g hzero
  cases hresult : libs.decompressDctx g.attempt g.outSize payload with
  | ok original =>
      rw [hzero] at hresult
      exact (hfail _ _ hresult).elim
  | error e =>
      have hle : g.outSize ≤ maxOut := by
        rw [hzero]
        exact Nat.zero_le _
      refine ⟨_, growTurn_of_error hmalloc hle hresult, ?_⟩
      rw [hzero]

/-- The first size is zero exactly when the frame declares zero. -/
theorem firstOutSize_eq_zero_iff :
    firstOutSize libs payload = 0 ↔ libs.frameContentSize payload = 0 := by
  unfold firstOutSize
  dsimp only
  split_ifs with hsentinel
  · constructor
    · intro h
      omega
    · intro h
      rw [h] at hsentinel
      exact absurd hsentinel (by decide)
  · constructor
    · intro h
      exact UInt64.toNat_inj.mp h
    · intro h
      rw [h]
      rfl

end Termination

/-- Whatever the frame declares and however the attempts turn out, the loop ends, with
an original or at the cap, exactly when the declared size is not zero or some attempt
with an empty buffer succeeds. -/
theorem growLoop_terminates_iff {libs : Libraries} {payload : Bytes}
    (hmalloc : libs.MallocSucceeds) :
    (∃ fuel, (∃ original, growLoop libs fuel payload = .ok original) ∨
        growLoop libs fuel payload = .error (.err capAbort)) ↔
      libs.frameContentSize payload ≠ 0 ∨
        ∃ attempt original, libs.decompressDctx attempt 0 payload = .ok original := by
  rw [exists_growLoop_ends_iff hmalloc]
  by_cases hzero : libs.frameContentSize payload = 0
  · rw [firstOutSize_eq_zero_iff.mpr hzero]
    simp only [hzero, ne_eq, not_true_eq_false, false_or]
    constructor
    · intro h
      rcases h with ⟨result, hleaves⟩
      by_contra hnone
      push Not at hnone
      exact not_leaves_of_zero hmalloc hnone result hleaves
    · intro h
      rcases h with ⟨attempt, original, hok⟩
      exact leaves_of_zero_of_ok hmalloc hok
  · have hpos : 0 < firstOutSize libs payload := by
      apply Nat.pos_of_ne_zero
      intro hfirst
      exact hzero (firstOutSize_eq_zero_iff.mp hfirst)
    simp only [hzero, ne_eq, not_false_eq_true, true_or, iff_true]
    exact leaves_of_pos hmalloc hpos

/-- A payload that is no frame keeps failing until the cap stops it. -/
theorem growLoop_terminates_corrupt :
    ∃ fuel, (∃ original, growLoop (oneFrameLibraries 0 [] []) fuel (asBytes "corrupt") =
        .ok original) ∨
      growLoop (oneFrameLibraries 0 [] []) fuel (asBytes "corrupt") = .error (.err capAbort) :=
  (growLoop_terminates_iff (oneFrameLibraries_mallocSucceeds 0 [] [])).mpr
    (Or.inl (by decide))

/-- An empty skippable frame in front of the frame of a two-byte original.  Its content
size is reported as zero: that of the first frame. -/
def skippableThenHi : Bytes :=
  [0x50, 0x2A, 0x4D, 0x18, 0x00, 0x00, 0x00, 0x00] ++ storedFrame (asBytes "hi")

/-- Behind an empty skippable frame every attempt gets an empty buffer: the loop never
ends. -/
theorem growLoop_never_ends_after_skippable :
    (oneFrameLibraries 0 skippableThenHi (asBytes "hi")).MallocSucceeds ∧
      ∀ fuel, growLoop (oneFrameLibraries 0 skippableThenHi (asBytes "hi")) fuel
        skippableThenHi = .error .timeout := by
  have hmalloc := oneFrameLibraries_mallocSucceeds 0 skippableThenHi (asBytes "hi")
  have hfail : ∀ attempt original,
      (oneFrameLibraries 0 skippableThenHi (asBytes "hi")).decompressDctx attempt 0
        skippableThenHi ≠ .ok original := by
    intro attempt original hok
    rcases (oneFrameLibraries_decodes 0 skippableThenHi (asBytes "hi") attempt 0).2 (by decide)
      with ⟨e, he⟩
    rw [he] at hok
    cases hok
  have hfirst := firstOutSize_eq_zero_iff.mpr
    (oneFrameLibraries_frameContentSize 0 skippableThenHi (asBytes "hi"))
  refine ⟨hmalloc, ?_⟩
  intro fuel
  unfold growLoop
  rw [hfirst]
  cases hturns : turns (growTurn (oneFrameLibraries 0 skippableThenHi (asBytes "hi"))
      skippableThenHi) fuel ⟨0, 0⟩ with
  | none => rfl
  | some result =>
      exact (not_leaves_of_zero hmalloc hfail result
        (exists_turns_iff.mp ⟨fuel, hturns⟩)).elim

/-! ## A packed file -/

/-- A loader-shaped file around a zstd container is restored exactly when some doubling
of the first buffer size lies between the original's size and the cap. -/
theorem restoreApp_loaderImage_iff {libs : Libraries} {loader original : Bytes} {c : Container}
    (hloader : loader.length < 2 ^ 32) (happ : c.bytes.length < 2 ^ 32)
    (hzstd : c.codec = .zstd) (hdctx : libs.createDctx = true)
    (hmalloc : libs.MallocSucceeds) (hdecodes : libs.Decodes c.payload original) :
    (∃ fuel, restoreApp libs fuel (loaderImage loader c.bytes) = .ok (c.name ++ [0], original)) ↔
      ∃ k, original.length ≤ firstOutSize libs c.payload * 2 ^ k ∧
        firstOutSize libs c.payload * 2 ^ k ≤ maxOut := by
  rw [← leavesWith_ok_iff hmalloc hdecodes, ← exists_growLoop_ok_iff]
  apply exists_congr
  intro fuel
  unfold restoreApp
  rw [parseFile_loaderImage hloader happ hzstd, ok_bind, bind_eq_ok_iff]
  simp only [decompressApp, if_pos hdctx, pure, Except.pure, Except.ok.injEq, Prod.mk.injEq,
    true_and, exists_eq_right]

end Loader
end Upxz
