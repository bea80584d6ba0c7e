import Upxz.Loader.Parse

/-!
# Loader - Reads and writes in bounds

The macOS loader reads its buffers through raw pointers and relies on checks made
earlier.  In the model a subtraction below zero, a read outside the trailer or the
app segment and a write outside the name buffer are panics, so a run without a panic
stayed inside its data.

Main results:

- Theorem `parseApp_cleanWith`: every app segment is taken apart or refused with a
  non-zero exit code, without a panic.
- Theorem `parseFile_in_bounds`: so is every file; the segment read lies before the
  trailer, and the name copy fills its buffer exactly.
-/

namespace Upxz
namespace Loader

open Machine Format

/-- An exit code that reports failure. -/
def Abort.Reports (abort : Abort) : Prop :=
  abort.exitCode ≠ 0

theorem reports_exitFormat (message : String) : Abort.Reports ⟨message, exitFormat⟩ := by
  intro h
  cases h

/-- Reading the trailer succeeds or is refused. -/
theorem readTrailer_cleanWith (file : Bytes) : CleanWith Abort.Reports (readTrailer file) := by
  by_cases hlong : 16 ≤ file.length
  · rw [readTrailer_of_long hlong]
    refine CleanWith.ensure_bind (reports_exitFormat _) fun _ => ?_
    refine CleanWith.ensure_bind (reports_exitFormat _) fun _ => ?_
    exact cleanWith_ok _
  · have hguard : ¬trailerLen ≤ file.length := hlong
    rw [readTrailer]
    dsimp only
    rw [ensure_of_not _ hguard, error_bind]
    exact cleanWith_err (reports_exitFormat _)

/-- Every app segment is taken apart or refused. -/
theorem parseApp_cleanWith (appBuf : Bytes) : CleanWith Abort.Reports (parseApp appBuf) := by
  by_cases hlong : magicLen + 4 ≤ appBuf.length
  · rcases exists_fixed_fields (Nat.le_of_add_right_le hlong) with
      ⟨id, reserved₀, reserved₁, hid, hres₀, hres₁⟩
    rw [parseApp_of_long hlong hid hres₀ hres₁]
    refine CleanWith.ensure_bind (reports_exitFormat _) fun _ => ?_
    refine CleanWith.ensure_bind (reports_exitFormat _) fun _ => ?_
    refine CleanWith.ensure_bind (reports_exitFormat _) fun _ => ?_
    refine CleanWith.ensure_bind (reports_exitFormat _) fun _ => ?_
    refine CleanWith.ensure_bind (reports_exitFormat _) fun _ => ?_
    exact cleanWith_ok _
  · have hshort : ¬headerFixed ≤ appBuf.length := hlong
    rw [parseApp]
    dsimp only
    rw [ensure_of_not _ hshort, error_bind]
    exact cleanWith_err (reports_exitFormat _)

/-- The app segment an accepted trailer points to lies before the trailer and is read in
full. -/
theorem readExact_of_readTrailer {file : Bytes} {loaderLen appLen : Nat}
    (h : readTrailer file = .ok (loaderLen, appLen)) :
    trailerLen ≤ file.length ∧ loaderLen + appLen ≤ file.length - trailerLen ∧
      ∃ appBuf, readExact file loaderLen appLen = some appBuf ∧ appBuf.length = appLen := by
  rcases readTrailer_eq_ok_iff.mp h with ⟨hlong, -, hsum, rfl, rfl⟩
  unfold trailerLen
  refine ⟨hlong, by omega, _, if_pos (by omega), ?_⟩
  rw [List.length_take, List.length_drop]
  omega

/-- The app segment and what the loader took out of it.  The header and the name lie
inside the segment, the payload is the rest of it, and the name copy writes every byte of
a buffer of `nameLen + 1` bytes and no other. -/
structure TakenApart (appBuf : Bytes) (app : App) : Prop where
  fits : headerFixed + declaredNameLen appBuf ≤ appBuf.length
  payload : app.payload = appBuf.drop (headerFixed + declaredNameLen appBuf)
  name_length : app.nameCString.length = declaredNameLen appBuf + 1
  copied : ∀ buf, buf.length = declaredNameLen appBuf + 1 →
    copyNameInto appBuf (declaredNameLen appBuf) buf = .ok app.nameCString

theorem takenApart_of_parseApp {appBuf : Bytes} {app : App} (h : parseApp appBuf = .ok app) :
    TakenApart appBuf app := by
  rcases parseApp_eq_ok_iff.mp h with ⟨c, hbytes, -, rfl⟩
  have hf := Container.bytes_eq_iff.mp hbytes
  have hfits : headerFixed + declaredNameLen appBuf ≤ appBuf.length := hf.declared_fits
  have hname : (appBuf.drop headerFixed).take (declaredNameLen appBuf) = c.name := by
    rw [hf.nameLen]
    exact hf.name
  exact
    { fits := hfits
      payload := by
        rw [hf.nameLen]
        exact hf.payload.symm
      name_length := by
        rw [List.length_append, List.length_singleton, hf.nameLen]
      copied := by
        intro buf hbuf
        rw [copyNameInto_ok hfits hbuf, hname] }

/-- For every file, no subtraction goes below zero and every access is inside its buffer.
The segment an accepted trailer points to lies before the trailer; the file is then
refused with a non-zero exit code, or the segment is read in full and taken apart. -/
theorem parseFile_in_bounds (file : Bytes) :
    (∀ loaderLen appLen, readTrailer file = .ok (loaderLen, appLen) →
      trailerLen ≤ file.length ∧ loaderLen + appLen ≤ file.length - trailerLen) ∧
    ((∃ abort, parseFile file = .error (.err abort) ∧ abort.Reports) ∨
      ∃ loaderLen appLen appBuf app, readTrailer file = .ok (loaderLen, appLen) ∧
        readExact file loaderLen appLen = some appBuf ∧ appBuf.length = appLen ∧
        parseFile file = .ok app ∧ TakenApart appBuf app) := by
  constructor
  · intro loaderLen appLen htrailer
    rcases readExact_of_readTrailer htrailer with ⟨hlong, hsum, -⟩
    exact ⟨hlong, hsum⟩
  · unfold parseFile
    rcases readTrailer_cleanWith file with ⟨⟨loaderLen, appLen⟩, htrailer⟩ | ⟨abort, he, hreports⟩
    · rcases readExact_of_readTrailer htrailer with ⟨-, -, appBuf, hread, hlen⟩
      rw [htrailer, ok_bind]
      simp only [hread]
      rcases parseApp_cleanWith appBuf with ⟨app, happ⟩ | ⟨abort, he, hreports⟩
      · exact Or.inr ⟨loaderLen, appLen, appBuf, app, rfl, hread, hlen, happ,
          takenApart_of_parseApp happ⟩
      · exact Or.inl ⟨abort, he, hreports⟩
    · rw [he, error_bind]
      exact Or.inl ⟨abort, rfl, hreports⟩

/-- An app segment with a name of four bytes and a payload of four. -/
def toolSegment : Container where
  codec := .zstd
  name := asBytes "tool"
  payload := [0x28, 0xB5, 0x2F, 0xFD]
  name_fits := by decide

/-- Behind a loader of one byte it is read in full and taken apart. -/
theorem parseFile_in_bounds_tool : ∃ loaderLen appLen appBuf app,
    readTrailer (loaderImage [0x7F] toolSegment.bytes) = .ok (loaderLen, appLen) ∧
      loaderLen + appLen ≤ (loaderImage [0x7F] toolSegment.bytes).length - trailerLen ∧
      readExact (loaderImage [0x7F] toolSegment.bytes) loaderLen appLen = some appBuf ∧
      TakenApart appBuf app ∧ app.nameCString = asBytes "tool" ++ [0] ∧
      app.payload = [0x28, 0xB5, 0x2F, 0xFD] := by
  have hparse : parseFile (loaderImage [0x7F] toolSegment.bytes) =
      .ok ⟨asBytes "tool" ++ [0], [0x28, 0xB5, 0x2F, 0xFD]⟩ :=
    parseFile_loaderImage (by decide) (by decide) rfl
  rcases parseFile_in_bounds (loaderImage [0x7F] toolSegment.bytes) with
    ⟨hbounds, ⟨abort, he, -⟩ | ⟨loaderLen, appLen, appBuf, app, htrailer, hread, -, hok, htaken⟩⟩
  · rw [hparse] at he
    cases he
  · have hsame := hok
    rw [hparse] at hsame
    cases hsame
    exact ⟨loaderLen, appLen, appBuf, _, htrailer, (hbounds loaderLen appLen htrailer).2, hread,
      htaken, rfl, rfl⟩

end Loader
end Upxz
