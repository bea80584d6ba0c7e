import Upxz.Loader.Contract
import Upxz.Loader.Bounds

/-!
# Loader - The promise is kept

`real_main` makes legal calls only and ends as its contract says, in every world.  The
proof follows the program from its end to its start, one theorem for each step; each
takes what the step before it leaves in memory and what is known by then about the packed
file and the temp file.

Main results:

- Theorem `readExactInto_keeps`: however short its reads are, `read_exact` reads the bytes
  that follow in the file, and fails only when they are not all there or a call fails.
- Theorem `writeOut_keeps`: however short its writes are, the loop of step 6 leaves the
  whole buffer over what the file held.
- Theorem `growStep_keeps`: the loop of step 5 makes the turns of the growing loop, with one
  output buffer at a time.
- Theorem `realMain_keeps`: `real_main` keeps its promise.
-/

namespace Upxz
namespace Loader

open Machine Format

section Discipline

variable {κ α : Type} {env : Darwin κ α} {start : Files κ} {fuel : Nat} {p : Proc κ α}
  {f : Files κ}

/-! ## Reading in parts -/

/-- What `read_exact` has read when it returns. -/
structure ReadTo (env : Darwin κ α) (p : Proc κ α) (f : Files κ) (fd : Int) (buf : Addr)
    (count : Nat) (front : Bytes) (room : Nat) (d : Desc κ) (complete : Bool)
    (p' : Proc κ α) (f' : Files κ) (back : Bytes) : Prop where
  state : ∃ rest d', rest.length + back.length = room ∧
    p' = (p.putBytes buf ((front ++ back).map some ++ rest)).setFd fd d'
  rely : env.rely f f'
  filled : complete = true → front.length + back.length = count
  follows : ∀ node, Stays env f d.place node → back <+: node.content.drop d.offset ∧
    (complete = false → ¬env.mayFail → node.content.length < d.offset + (count - front.length))

/-- What is read behind a first part was read behind what stood in front of it. -/
theorem ReadTo.step {fd : Int} {buf : Addr} {count : Nat} {front bytes back : Bytes}
    {room : Nat} {d : Desc κ} {complete : Bool} {p' : Proc κ α} {f' : Files κ} {cells : Cells UInt8}
    (hroom : bytes.length ≤ room) (hcount : front.length + bytes.length ≤ count)
    (hfollows : ∀ node, Stays env f d.place node → bytes <+: node.content.drop d.offset)
    (h : ReadTo env ((p.putBytes buf ((front ++ bytes).map some ++ cells)).setFd fd
        { d with offset := d.offset + bytes.length }) f fd buf count (front ++ bytes)
      (room - bytes.length) { d with offset := d.offset + bytes.length } complete p' f' back) :
    ReadTo env p f fd buf count front room d complete p' f' (bytes ++ back) where
  state := by
    rcases h.state with ⟨rest, d', hlen, rfl⟩
    refine ⟨rest, d', ?_, ?_⟩
    · rw [List.length_append]
      omega
    · rw [← List.append_assoc, Proc.setFd_putBytes, Proc.putBytes_putBytes, Proc.setFd_setFd]
  rely := h.rely
  filled := by
    intro hcomplete
    have hfilled := h.filled hcomplete
    rw [List.length_append] at hfilled ⊢
    omega
  follows := by
    intro node hnode
    rcases h.follows node hnode with ⟨hback, hshort⟩
    constructor
    · rcases hfollows node hnode with ⟨after, hafter⟩
      have hdrop : node.content.drop (d.offset + bytes.length) = after := by
        rw [← List.drop_drop, ← hafter, List.drop_left]
      rw [hdrop] at hback
      rw [← hafter]
      exact (List.prefix_append_right_inj bytes).mpr hback
    · intro hfailed hnot
      have hend := hshort hfailed hnot
      rw [List.length_append] at hend
      dsimp only at hend
      omega

/-! ## The growing loop, turn by turn -/

/-- The growing loop from any of its turns on. -/
def growFrom (libs : Libraries) (payload : Bytes) (fuel : Nat) (g : Grow) : Exec Abort Bytes :=
  match turns (growTurn libs payload) fuel g with
  | some (.ok original) => .ok original
  | some (.error abort) => .error (.err abort)
  | none => .error .timeout

theorem growLoop_eq_growFrom (libs : Libraries) (payload : Bytes) (fuel : Nat) :
    growLoop libs fuel payload = growFrom libs payload fuel ⟨0, firstOutSize libs payload⟩ :=
  rfl

theorem growFrom_cap {libs : Libraries} {payload : Bytes} {g : Grow} (h : maxOut < g.outSize) :
    growFrom libs payload (fuel + 1) g = .error (.err capAbort) := by
  simp only [growFrom, turns, growTurn_of_cap h]

theorem Darwin.libraries_malloc (env : Darwin κ α) : env.libraries.MallocSucceeds :=
  fun _ _ => rfl

theorem growFrom_ok {payload out : Bytes} {g : Grow} (h : ¬maxOut < g.outSize)
    (hok : env.decompress g.attempt g.outSize payload = .ok out) :
    growFrom env.libraries payload (fuel + 1) g = .ok out := by
  have hturn := growTurn_of_ok env.libraries_malloc (Nat.not_lt.mp h) hok
  simp only [growFrom, turns, hturn]

theorem growFrom_error {payload : Bytes} {g : Grow} {e : Nat} (h : ¬maxOut < g.outSize)
    (herror : env.decompress g.attempt g.outSize payload = .error e) :
    growFrom env.libraries payload (fuel + 1) g =
      growFrom env.libraries payload fuel ⟨g.attempt + 1, saturatingMul g.outSize 2⟩ := by
  have hle := Nat.not_lt.mp h
  have hturn := growTurn_of_error env.libraries_malloc hle herror
  have hdouble : saturatingMul g.outSize 2 = g.outSize * 2 := by
    apply saturatingMul_of_lt
    unfold maxOut at hle
    unfold usizeValues
    omega
  simp only [growFrom, turns, hturn, hdouble]

/-! ## What the parser says -/

/-- A refused header or trailer, by its exit code. -/
def FormatError (abort : Abort) : Prop :=
  abort.exitCode = exitFormat

theorem FormatError.not_mem_nameLeaks {abort : Abort} (h : FormatError abort) :
    abort ∉ nameLeaks := by
  have hall : ∀ a ∈ nameLeaks, a.exitCode ≠ exitFormat := by decide
  exact fun hmem => hall abort hmem h

theorem FormatError.not_mem_tempTouched {abort : Abort} (h : FormatError abort) :
    abort ∉ tempTouched := by
  have hall : ∀ a ∈ tempTouched, a.exitCode ≠ exitFormat := by decide
  exact fun hmem => hall abort hmem h

/-- The header is taken apart, or refused for its format. -/
theorem parseApp_formatError (appBuf : Bytes) : CleanWith FormatError (parseApp appBuf) := by
  by_cases hlong : magicLen + 4 ≤ appBuf.length
  · rcases exists_fixed_fields (Nat.le_of_add_right_le hlong) with
      ⟨id, reserved₀, reserved₁, hid, hres₀, hres₁⟩
    rw [parseApp_of_long hlong hid hres₀ hres₁]
    refine CleanWith.ensure_bind rfl fun _ => ?_
    refine CleanWith.ensure_bind rfl fun _ => ?_
    refine CleanWith.ensure_bind rfl fun _ => ?_
    refine CleanWith.ensure_bind rfl fun _ => ?_
    refine CleanWith.ensure_bind rfl fun _ => ?_
    exact cleanWith_ok _
  · have hshort : ¬headerFixed ≤ appBuf.length := hlong
    rw [parseApp]
    dsimp only
    rw [ensure_of_not _ hshort, error_bind]
    exact cleanWith_err rfl

/-- The trailer is accepted, or refused for its format. -/
theorem checkTrailer_formatError {total : Nat} {trailer : Bytes} (htotal : trailerLen ≤ total)
    (hlen : trailer.length = trailerLen) : CleanWith FormatError (checkTrailer total trailer) := by
  -- a file of that size with that trailer
  have hsize : (List.replicate (total - trailerLen) 0 ++ trailer).length = total := by
    rw [List.length_append, List.length_replicate, hlen]
    omega
  have hread := @readTrailer_eq_checkTrailer (List.replicate (total - trailerLen) 0 ++ trailer)
    (by rw [hsize]; exact htotal)
  rw [hsize, List.drop_left' List.length_replicate] at hread
  rw [← hread, readTrailer_of_long (by rw [hsize]; exact htotal)]
  refine CleanWith.ensure_bind rfl fun _ => ?_
  refine CleanWith.ensure_bind rfl fun _ => ?_
  exact cleanWith_ok _

/-- What the header is taken apart into, as the process uses it. -/
theorem parsed_fits {appBuf : Bytes} {app : App} (h : parseApp appBuf = .ok app) :
    0 ∈ app.nameCString ∧ appBuf.length - app.payload.length + app.payload.length ≤ appBuf.length ∧
      (appBuf.drop (appBuf.length - app.payload.length)).take app.payload.length =
        app.payload := by
  have hparts := takenApart_of_parseApp h
  have hfits := hparts.fits
  have hlen : app.payload.length =
      appBuf.length - (headerFixed + declaredNameLen appBuf) := by
    rw [hparts.payload, List.length_drop]
  have hstart : appBuf.length - app.payload.length = headerFixed + declaredNameLen appBuf := by
    omega
  refine ⟨?_, by omega, ?_⟩
  · rcases parseApp_eq_ok_iff.mp h with ⟨c, -, -, rfl⟩
    exact List.mem_append_right _ (List.mem_singleton_self 0)
  · rw [hstart, ← hparts.payload, List.take_length]

/-! ## The packed file -/

/-- The packed file is there, as it was at the start. -/
def OwnFile (env : Darwin κ α) (start f : Files κ) : Prop :=
  ∃ node, f env.self = some node ∧ start env.self = some node

theorem OwnFile.rely {g : Files κ} (hquiet : env.Quiet) (hg : env.rely f g)
    (h : OwnFile env start f) : OwnFile env start g := by
  rcases h with ⟨node, hnode, hstart⟩
  exact ⟨node, (hquiet.self_kept hg).trans hnode, hstart⟩

/-- It stays, and its content is the image. -/
theorem OwnFile.stays (hquiet : env.Quiet) (h : OwnFile env start f) :
    ∃ node, Stays env f env.self node ∧ node.content = image env start := by
  rcases h with ⟨node, hnode, hstart⟩
  refine ⟨node, fun g hg => (hquiet.self_kept hg).trans hnode, ?_⟩
  rw [image, hstart]
  rfl

/-- Darwin opens a file that is there for reading. -/
theorem darwinOpen_rdonly (root : Bool) (mode : Nat) (file : TempNode) :
    darwinOpen root oRdonly mode (some file) = .ok file := by
  simp [darwinOpen, oRdonly]

/-- Opening the packed file for reading fails only when a call fails. -/
theorem OwnFile.mayFail {path : PathArg α} {mode : Nat} (h : OwnFile env start f)
    (hpath : env.argumentPlace path = some env.self)
    (hwhy : env.mayFail ∨ ∀ place, env.argumentPlace path = some place →
      ∃ errno, darwinOpen env.root oRdonly mode (f place) = .error errno) : env.mayFail := by
  rcases hwhy with hfail | herror
  · exact hfail
  · rcases h with ⟨node, hnode, -⟩
    rcases herror _ hpath with ⟨errno, herrno⟩
    rw [hnode, darwinOpen_rdonly] at herrno
    cases herrno

/-! ## Memory in step 6 -/

/-- The state while step 6 has the app segment, the name and the output in memory. -/
def withOutput (trailer : Cells UInt8) (appId nameId dstId : Nat) (app name : Bytes)
    (out : Cells UInt8) : Proc κ α :=
  (((Proc.base trailer).putBytes (.block nameId) (name.map some)).putBytes (.block appId)
    (app.map some)).putBytes (.block dstId) out

theorem withOutput_mem {trailer out : Cells UInt8} {appId nameId dstId : Nat} {app name : Bytes}
    (happ : appId ≠ nameId) (hdst : dstId ≠ nameId) (hdstApp : dstId ≠ appId) :
    let p : Proc κ α := withOutput trailer appId nameId dstId app name out
    p.mem (.block appId) = some (.bytes (app.map some)) ∧ p.mem (.block dstId) = some (.bytes out) ∧
      p.drop (.block appId) =
        ((Proc.base trailer).putBytes (.block nameId) (name.map some)).putBytes (.block dstId) out ∧
      (p.drop (.block appId)).drop (.block dstId) =
        (Proc.base trailer).putBytes (.block nameId) (name.map some) := by
  have hfreshApp : ((Proc.base trailer : Proc κ α).putBytes (.block nameId)
      (name.map some)).mem (.block appId) = none := by
    rw [Proc.putBytes_mem_of_ne _ (by simpa using happ), Proc.base_block]
  have hfreshDst : ((Proc.base trailer : Proc κ α).putBytes (.block nameId)
      (name.map some)).mem (.block dstId) = none := by
    rw [Proc.putBytes_mem_of_ne _ (by simpa using hdst), Proc.base_block]
  have hdrop : (withOutput trailer appId nameId dstId app name out : Proc κ α).drop (.block appId) =
      ((Proc.base trailer).putBytes (.block nameId) (name.map some)).putBytes (.block dstId)
        out := by
    rw [withOutput, Proc.drop_putBytes_of_ne _ (by simpa using hdstApp),
      Proc.drop_putBytes _ hfreshApp]
  refine ⟨?_, Proc.putBytes_mem .., hdrop, ?_⟩
  · rw [withOutput, Proc.putBytes_mem_of_ne _ (by simpa using hdstApp.symm), Proc.putBytes_mem]
  · rw [hdrop, Proc.drop_putBytes _ hfreshDst]

/-! ## Loops over a buffer -/

variable [DecidableEq κ]

/-- However short its reads are, `read_exact` reads the bytes that follow in the file, up
to `count`; it fails only when they are not all there or a call fails. -/
theorem readExactInto_keeps {fd : Int} {buf : Addr} {count off : Nat} {front : Bytes}
    {rest : Cells UInt8} {d : Desc κ} (hfd : p.fds fd = some d)
    (hmem : p.mem buf = some (.bytes (front.map some ++ rest))) (hoff : front.length = off)
    (hle : off ≤ count) (hfits : count ≤ off + rest.length) :
    Keeps (loaderWorld env start fuel)
      (fun complete p' f' => ∃ back,
        ReadTo env p f fd buf count front rest.length d complete p' f' back)
      (readExactInto fd buf count off) p f := by
  induction off using readExactInto.induct count generalizing p front rest d with
  | case1 off hlt ih =>
      rw [readExactInto, if_pos hlt]
      have hcells : off + (count - off) ≤ (front.map some ++ rest).length := by
        rw [List.length_append, List.length_map]
        omega
      have hnothing : ∀ r : Int, r ≤ 0 → (∀ node, Stays env f d.place node →
          ¬env.mayFail → node.content.length ≤ d.offset) →
          Keeps (loaderWorld env start fuel)
            (fun complete p' f' => ∃ back,
              ReadTo env p f fd buf count front rest.length d complete p' f' back)
            (if r ≤ 0 then .done false else readExactInto fd buf count (off + r.toNat)) p f := by
        intro r hr hend
        rw [if_pos hr]
        intro g hg
        refine ⟨[], ⟨rest, d, Nat.add_zero _, ?_⟩, hg, by simp, ?_⟩
        · rw [List.append_nil, Proc.putBytes_self hmem, Proc.setFd_self hfd]
        · intro node hnode
          refine ⟨List.nil_prefix, fun _ hfail => ?_⟩
          have hshort := hend node hnode hfail
          omega
      refine keeps_read hfd hmem hcells ?_ ?_
      · intro r hneg hfail
        exact hnothing r (Int.le_of_lt hneg) fun node hnode hnot => (hnot hfail).elim
      · intro bytes hlen hfollows
        by_cases hempty : bytes = []
        · subst hempty
          rw [overwrite_nil, Proc.putBytes_self hmem]
          simp only [List.length_nil, Nat.add_zero]
          rw [Proc.setFd_self hfd]
          apply hnothing 0 (Int.le_refl 0)
          intro node hnode _
          rcases (hfollows node hnode).2 rfl with hcount | hend
          · omega
          · exact hend
        · have hpos : 0 < bytes.length := List.length_pos_of_ne_nil hempty
          have hmore : ¬(bytes.length : Int) ≤ 0 := by omega
          rw [if_neg hmore, Int.toNat_natCast, ← hoff, overwrite_front]
          have hstep := @ih bytes.length hmore
            ((p.putBytes buf ((front ++ bytes).map some ++ rest.drop bytes.length)).setFd fd
              { d with offset := d.offset + bytes.length })
            (front ++ bytes) (rest.drop bytes.length)
            { d with offset := d.offset + bytes.length }
            (Proc.setFd_fds fd _) (Proc.putBytes_mem buf _)
            (by rw [List.length_append, Int.toNat_natCast, hoff])
            (by rw [Int.toNat_natCast]; omega)
            (by rw [Int.toNat_natCast, List.length_drop]; omega)
          rw [Int.toNat_natCast, ← hoff, List.length_drop] at hstep
          apply hstep.mono
          rintro complete p' f' ⟨back, hback⟩
          exact ⟨bytes ++ back,
            hback.step (by omega) (by omega) fun node hnode => (hfollows node hnode).1⟩
  | case2 off hge =>
      rw [readExactInto, if_neg hge]
      intro g hg
      refine ⟨[], ⟨rest, d, Nat.add_zero _, ?_⟩, hg, ?_, ?_⟩
      · rw [List.append_nil, Proc.putBytes_self hmem, Proc.setFd_self hfd]
      · intro _
        rw [List.length_nil]
        omega
      · intro node hnode
        exact ⟨List.nil_prefix, by simp⟩

/-- Seeking and reading leaves in the block the bytes that stand at the offset, all of them
unless the file is too short or a call fails. -/
theorem seekAndRead_keeps {fd : Int} {buf : Addr} {offset count : Nat} {d : Desc κ}
    {cells : Cells UInt8} (hfd : p.fds fd = some d) (hmem : p.mem buf = some (.bytes cells))
    (hlen : cells.length = count) :
    Keeps (loaderWorld env start fuel)
      (fun complete p' f' => env.rely f f' ∧ ∃ bytes rest d',
        p' = (p.putBytes buf (bytes.map some ++ rest)).setFd fd d' ∧
        bytes.length + rest.length = count ∧ (complete = true → rest = []) ∧
        ∀ node, Stays env f d.place node → bytes <+: node.content.drop offset ∧
          (complete = false → ¬env.mayFail → node.content.length < offset + count))
      (seekAndRead fd buf offset count) p f := by
  unfold seekAndRead
  rw [ask_bind]
  refine keeps_seekSet hfd ?_ ?_
  · intro r hneg hfail
    rw [if_pos hneg]
    intro g hg
    refine ⟨hg, [], cells, d, ?_, by rw [List.length_nil, Nat.zero_add, hlen], by simp, ?_⟩
    · rw [List.map_nil, List.nil_append, Proc.putBytes_self hmem, Proc.setFd_self hfd]
    · intro node _
      exact ⟨List.nil_prefix, fun _ hnot => (hnot hfail).elim⟩
  · rw [if_neg (by omega)]
    have hnothing : (p.setFd fd { d with offset := offset }).mem buf =
        some (.bytes (([] : Bytes).map some ++ cells)) := hmem
    refine (readExactInto_keeps (Proc.setFd_fds ..) hnothing rfl (Nat.zero_le _)
      (by omega)).mono ?_
    rintro complete p' f' ⟨back, hread⟩
    rcases hread.state with ⟨rest, d', hroom, rfl⟩
    refine ⟨hread.rely, back, rest, d', ?_, by omega, ?_, ?_⟩
    · rw [Proc.setFd_putBytes, Proc.setFd_setFd]
      rfl
    · intro hcomplete
      have hfilled := hread.filled hcomplete
      rw [List.length_nil, Nat.zero_add] at hfilled
      exact List.eq_nil_of_length_eq_zero (by omega)
    · exact hread.follows

/-- A write at the offset of what is out already moves the overlay forward. -/
theorem written_overlay {d : Desc κ} {out content : Bytes} {mode n : Nat}
    (hfits : d.offset + n ≤ out.length)
    (hnode : f d.place = some ⟨mode, overlay out content d.offset⟩) :
    written f d ((out.drop d.offset).take n) d.place =
      some ⟨mode, overlay out content (d.offset + n)⟩ := by
  unfold written
  rw [hnode]
  simp only [Function.update_self, writeAt_overlay hfits]

/-- However short its writes are, the loop of step 6 leaves the whole buffer over what the
temp file held; it fails only when a call fails. -/
theorem writeOut_keeps {fd : Int} {buf : Addr} {w : Nat} {out content : Bytes} {mode : Nat}
    {rest : Cells UInt8} {d : Desc κ} (hfd : p.fds fd = some d) (hplace : d.place = env.tmp)
    (hmem : p.mem buf = some (.bytes (out.map some ++ rest))) (hoffset : d.offset = w)
    (hle : w ≤ out.length)
    (htmp : env.Quiet → f env.tmp = some ⟨mode, overlay out content w⟩) :
    Keeps (loaderWorld env start fuel)
      (fun complete p' f' => (∃ d', p' = p.setFd fd d') ∧ (complete = false → env.mayFail) ∧
        (complete = true → env.Quiet →
          f' env.tmp = some ⟨mode, overlay out content out.length⟩))
      (writeOut fd buf out.length w) p f := by
  induction w using writeOut.induct out.length generalizing p f d with
  | case1 w hlt ih =>
      rw [writeOut, if_pos hlt]
      refine keeps_write hfd hplace hmem (by omega) (by omega) ?_ ?_
      · intro r hneg hfail
        rw [if_pos hneg]
        intro g hg
        exact ⟨⟨d, (Proc.setFd_self hfd).symm⟩, fun _ => hfail, by simp⟩
      · intro g n hg hpos hlen
        have hmore : ¬(n : Int) ≤ 0 := by omega
        rw [if_neg hmore]
        have hnext : env.Quiet → written g d ((out.drop w).take n) env.tmp =
            some ⟨mode, overlay out content (w + n)⟩ := by
          intro hquiet
          have hnode : g d.place = some ⟨mode, overlay out content d.offset⟩ := by
            rw [hplace, hquiet.tmp_kept hg, htmp hquiet, hoffset]
          have hwritten := written_overlay (n := n) (by omega) hnode
          rwa [hoffset, hplace] at hwritten
        have hkeeps := @ih n hmore (p.setFd fd { d with offset := d.offset + n }) _
          { d with offset := d.offset + n } (Proc.setFd_fds fd _) hplace hmem
          (by rw [Int.toNat_natCast, hoffset]) (by rw [Int.toNat_natCast]; omega) hnext
        apply hkeeps.mono
        rintro complete p' f' ⟨⟨d', rfl⟩, hfailed, hdone⟩
        exact ⟨⟨d', Proc.setFd_setFd ..⟩, hfailed, hdone⟩
  | case2 w hge =>
      rw [writeOut, if_neg hge]
      have hall : w = out.length := by omega
      intro g hg
      refine ⟨⟨d, (Proc.setFd_self hfd).symm⟩, by simp, ?_⟩
      intro _ hquiet
      rw [hquiet.tmp_kept hg, htmp hquiet, hall]

/-! ## Step 9 -/

/-- The loop over the arguments stores them behind the name, each in its slot. -/
theorem forwardArgs_keeps {vector name : Addr} {i : Nat} {rest : Cells (Slot α)}
    (hmem : p.mem vector =
      some (.pointers (((execPointerSlots env name).take i).map some ++ rest)))
    (hpos : 1 ≤ i) (hle : i ≤ userArgc env.args + 1)
    (hroom : i + rest.length = userArgc env.args + 2) :
    Keeps (loaderWorld env start fuel)
      (fun _ p' f' => env.rely f f' ∧ ∃ last : Option (Slot α),
        p' = p.putPointers vector ((execPointerSlots env name).map some ++ [last]))
      (forwardArgs vector (userArgc env.args) i) p f := by
  have hfull : ((execPointerSlots env name).take i).length = i := by
    rw [List.length_take, execPointerSlots_length]
    omega
  induction i using forwardArgs.induct (userArgc env.args) generalizing p rest with
  | case1 i hlt ih =>
      rw [forwardArgs, if_pos hlt]
      have huser := userArgc_eq env.args
      refine keeps_loadArg (by omega) ?_
      refine keeps_storePointer hmem ?_ ?_
      · rw [List.length_append, List.length_map, hfull]
        omega
      · have hstore : overwrite (((execPointerSlots env name).take i).map some ++ rest) i
            [.given (env.argvAt i)] =
              ((execPointerSlots env name).take (i + 1)).map some ++ rest.drop 1 := by
          have hfront := overwrite_front ((execPointerSlots env name).take i)
            [Slot.given (env.argvAt i)] rest
          rw [hfull] at hfront
          rw [hfront, execPointerSlots_take env name hpos (by omega)]
          rfl
        rw [hstore]
        apply (ih (Proc.putPointers_mem vector _) (by omega) (by omega) ?_ ?_).mono
        · rintro _ p' f' ⟨hrely, last, rfl⟩
          exact ⟨hrely, last, Proc.putPointers_putPointers ..⟩
        · rw [List.length_drop]
          omega
        · rw [List.length_take, execPointerSlots_length]
          omega
  | case2 i hge =>
      rw [forwardArgs, if_neg hge]
      have hend : i = userArgc env.args + 1 := by omega
      have hone : rest.length = 1 := by omega
      rcases List.length_eq_one_iff.mp hone with ⟨last, rfl⟩
      have hall : (execPointerSlots env name).take i = execPointerSlots env name := by
        rw [List.take_of_length_le]
        rw [execPointerSlots_length, hend]
      intro g hg
      refine ⟨hg, last, ?_⟩
      rw [hall] at hmem
      unfold Proc.putPointers Memory.put
      rw [← hmem, Function.update_eq_self]

theorem userArgc_slots (args : MainArgs α) :
    (userArgc args + 2) * pointerSize / pointerSize = userArgc args + 2 :=
  Nat.mul_div_cancel _ (by decide)

/-- Step 9, with the copy of the name as its only block and the temp file sealed. -/
theorem execStep_keeps {trailer : Cells UInt8} {id : Nat} {name : Bytes} (hnul : 0 ∈ name)
    (hsealed : env.Quiet → Sealed env start fuel name f) :
    Keeps (loaderWorld env start fuel) (Stops env start fuel)
      (execStep env.args env.tmpPath (.block id))
      ((Proc.base trailer).putBytes (.block id) (name.map some)) f := by
  refine keeps_mallocPointers ?_ ?_
  · intro hfail
    refine keeps_warn (keeps_free ⟨_, Proc.putBytes_mem ..⟩ ?_)
    rw [Proc.drop_say, Proc.drop_putBytes _ (Proc.base_block ..)]
    refine keeps_clean (by decide) (fun _ hnot => (hnot hfail).elim) ?_
    intro hquiet
    rcases hsealed hquiet with ⟨_, _, _, _, _, hnode, _⟩
    exact residue_left (by decide) (by rw [hnode]; simp)
  · intro vid hfree
    have hne : vid ≠ id := by
      rintro rfl
      rw [Proc.putBytes_mem] at hfree
      cases hfree
    rw [userArgc_slots]
    refine keeps_storePointer (Proc.putPointers_mem ..) (by rw [fresh_length]; omega) ?_
    have hfirst : overwrite (fresh (Slot α) (userArgc env.args + 2)) 0 [.block (.block id)] =
        ((execPointerSlots env (.block id)).take 1).map some ++
          (fresh (Slot α) (userArgc env.args + 2)).drop 1 :=
      overwrite_front [] [Slot.block (.block id)] _
    rw [hfirst, Proc.putPointers_putPointers]
    refine (forwardArgs_keeps (Proc.putPointers_mem ..) (Nat.le_refl 1) (by omega)
      (by rw [List.length_drop, fresh_length]; omega)).bind ?_
    rintro _ p' f' ⟨hrely, last, rfl⟩
    rw [Proc.putPointers_putPointers]
    refine keeps_storePointer (Proc.putPointers_mem ..) ?_ ?_
    · rw [List.length_append, List.length_map, execPointerSlots_length]
      exact Nat.lt_succ_self _
    · have hlast := overwrite_front (execPointerSlots env (.block id)) [Slot.given .null] [last]
      rw [execPointerSlots_length] at hlast
      rw [hlast, Proc.putPointers_putPointers]
      have hslots : (execPointerSlots env (.block id) ++ [Slot.given .null]).map some ++
          List.drop [Slot.given (α := α) .null].length [last] = execSlots env (.block id) :=
        List.append_nil _
      rw [hslots]
      have hsealed' : ∀ g, env.rely f' g → env.Quiet → Sealed env start fuel name g :=
        fun g hg hquiet => (hsealed hquiet).rely hquiet (env.rely_trans hrely hg)
      refine keeps_execv (fun g hg => exec_legal hnul hne (hsealed' g hg)) ?_
      intro hfail
      have hend : ∀ g, (env.Quiet → ¬env.unlinkFails → g env.tmp = none) →
          Keeps (loaderWorld env start fuel) (Stops env start fuel)
            (do
              ask (.free (.block id))
              ask (.free (.block vid))
              return some execAbort.exitCode)
            ((((Proc.base trailer).putBytes (.block id) (name.map some)).putPointers (.block vid)
              (execSlots env (.block id))).say execAbort.message) g := by
        intro g hremoved
        have haddr : (Addr.block vid) ≠ .block id := by
          intro h
          cases h
          exact hne rfl
        refine keeps_free ⟨_, (Proc.putPointers_mem_of_ne _ haddr.symm).trans
          (Proc.putBytes_mem ..)⟩ ?_
        rw [Proc.drop_say, Proc.drop_putPointers_of_ne _ haddr,
          Proc.drop_putBytes _ (Proc.base_block ..)]
        refine keeps_free ⟨_, Proc.putPointers_mem ..⟩ ?_
        rw [Proc.drop_say, Proc.drop_putPointers _ (Proc.base_block ..)]
        refine keeps_clean (by decide) (fun _ hnot => (hnot hfail).elim) ?_
        exact fun hquiet => residue_removed (by decide) (hremoved hquiet)
      refine keeps_warn (keeps_unlink ?_ ?_)
      · intro hunlink
        exact hend f' fun _ hnot => (hnot hunlink).elim
      · intro g _
        exact hend _ fun _ _ => Function.update_self ..

/-! ## Steps 7 and 8 -/

/-- The child of `codesign_adhoc` hands over to `codesign`, and only to it. -/
theorem codesignChild_keeps {β : Type} {Q : β → Proc κ α → Files κ → Prop}
    (hforked : env.forked) (hfds : p.fds = fun _ => none) :
    Keeps (loaderWorld env start fuel) Q (codesignChild env.tmpPath) p f := by
  have hexec : ∀ g, Keeps (loaderWorld env start fuel) Q
      (do
        ask (.execv codesignPath (.literals (codesignArgs env.tmpPath)))
        .call (.exit 127) Empty.elim) p g := by
    intro g
    refine keeps_execv (fun _ _ => ⟨⟨hforked, hfds, rfl, rfl⟩, trivial⟩) ?_
    intro _
    exact keeps_exit hforked
  have hfinish : ∀ (fd : Int) (p' : Proc κ α) (g : Files κ),
      Keeps (loaderWorld env start fuel) (fun _ p'' _ => p'' = p) (silence fd) p' g →
      Keeps (loaderWorld env start fuel) Q
        (do
          silence fd
          ask (.execv codesignPath (.literals (codesignArgs env.tmpPath)))
          .call (.exit 127) Empty.elim) p' g := by
    intro fd p' g hsilence
    refine hsilence.bind ?_
    rintro _ _ g' rfl
    exact hexec g'
  refine keeps_open (Or.inr ⟨hforked, rfl, rfl⟩) ?_ ?_
  · intro g fd _ hneg _
    refine hfinish fd p g ?_
    rw [silence, if_neg (Int.not_le.mpr hneg)]
    exact fun _ _ => rfl
  · intro g fd place node _ hpos hfree _ _
    refine hfinish fd _ g ?_
    rw [silence, if_pos hpos]
    refine keeps_dup2 ⟨_, Proc.setFd_fds ..⟩ (keeps_dup2 ⟨_, Proc.setFd_fds ..⟩ ?_)
    refine keeps_close ⟨_, Proc.setFd_fds ..⟩ ?_
    rw [Proc.closeFd_setFd _ hfree]
    exact fun _ _ => rfl

/-- `codesign_adhoc` leaves the process as it was; the temp file is signed or left alone. -/
theorem codesignAdhoc_keeps (hfds : p.fds = fun _ => none) {node : TempNode}
    (htmp : env.Quiet → f env.tmp = some node) :
    Keeps (loaderWorld env start fuel)
      (fun _ p' f' => p' = p ∧ (env.Quiet → ∃ content,
        f' env.tmp = some { node with content := content } ∧ Signed env node.content content))
      (codesignAdhoc env.tmpPath) p f := by
  have halone : ∀ g, env.rely f g → env.Quiet → ∃ content,
      g env.tmp = some { node with content := content } ∧ Signed env node.content content := by
    intro g hg hquiet
    exact ⟨node.content, (hquiet.tmp_kept hg).trans (htmp hquiet), Or.inl rfl⟩
  refine keeps_fork hfds ?_
  intro child hchild
  change Keeps _ _ (if child < 0 then .done () else
    if child = 0 then codesignChild env.tmpPath else ask (.waitpid child)) p f
  by_cases hneg : child < 0
  · rw [if_pos hneg]
    intro g hg
    exact ⟨rfl, halone g hg⟩
  · rw [if_neg hneg]
    by_cases hzero : child = 0
    · rw [if_pos hzero]
      exact codesignChild_keeps (hchild hzero) hfds
    · rw [if_neg hzero]
      refine keeps_waitpid ?_ ?_
      · intro g hg
        exact ⟨rfl, halone g hg⟩
      · intro g there content hg hthere hsigned g' hg'
        refine ⟨rfl, ?_⟩
        intro hquiet
        rw [hquiet.tmp_kept hg, htmp hquiet] at hthere
        cases hthere
        refine ⟨content, ?_, Or.inr hsigned⟩
        rw [hquiet.tmp_kept hg', Function.update_self]

/-- The temp file is filled: what the packed file unpacks to, over what was left there. -/
def Filled (env : Darwin κ α) (start : Files κ) (fuel : Nat) (name : Bytes) (f : Files κ) :
    Prop :=
  ∃ original file,
    restoreApp env.libraries fuel (image env start) = .ok (name, original) ∧
    darwinOpen env.root openFlags 0o600 (start env.tmp) = .ok file ∧
    f env.tmp = some ⟨file.mode, overlay original file.content original.length⟩

/-- Steps 7 and 8, and on, with the copy of the name as the only block. -/
theorem sealStep_keeps {trailer : Cells UInt8} {id : Nat} {name : Bytes} (hnul : 0 ∈ name)
    (hfilled : env.Quiet → Filled env start fuel name f) :
    Keeps (loaderWorld env start fuel) (Stops env start fuel)
      (sealStep env.args env.tmpPath (.block id))
      ((Proc.base trailer).putBytes (.block id) (name.map some)) f := by
  obtain ⟨original, file, hfacts⟩ : ∃ original file, env.Quiet →
      restoreApp env.libraries fuel (image env start) = .ok (name, original) ∧
      darwinOpen env.root openFlags 0o600 (start env.tmp) = .ok file ∧
      f env.tmp = some ⟨file.mode, overlay original file.content original.length⟩ := by
    by_cases hquiet : env.Quiet
    · rcases hfilled hquiet with ⟨original, file, hfacts⟩
      exact ⟨original, file, fun _ => hfacts⟩
    · exact ⟨[], ⟨0, []⟩, fun h => (hquiet h).elim⟩
  refine (codesignAdhoc_keeps (by rfl) fun hquiet => (hfacts hquiet).2.2).bind ?_
  rintro _ p' g ⟨rfl, hsigned⟩
  refine keeps_chmod ?_ ?_
  · intro g' r hg' hr hwhy
    have hsome : env.Quiet → g' env.tmp ≠ none := by
      intro hquiet
      rcases hsigned hquiet with ⟨content, hnode, -⟩
      rw [hquiet.tmp_kept hg', hnode]
      simp
    dsimp only [Calls.bind]
    rw [if_pos hr]
    refine keeps_warn (keeps_leaking (by decide) ?_ ?_)
    · intro hquiet hnot
      exact (hwhy.elim hnot (hsome hquiet)).elim
    · exact fun hquiet => residue_left (by decide) (hsome hquiet)
  · intro g' hg'
    apply execStep_keeps hnul
    intro hquiet
    rcases hfacts hquiet with ⟨hrestore, hopen, -⟩
    rcases hsigned hquiet with ⟨content, hnode, hsign⟩
    refine ⟨original, file, content, hrestore, hopen, ?_, hsign⟩
    rw [sealed, hquiet.tmp_kept hg', hnode]
    exact Function.update_self ..

/-! ## Step 6 -/

/-- Step 6, and on: the packed file has been unpacked into a block of its own. -/
theorem tempStep_keeps {trailer rest : Cells UInt8} {appId nameId dstId : Nat}
    {app name out : Bytes} (happ : appId ≠ nameId) (hdst : dstId ≠ nameId)
    (hdstApp : dstId ≠ appId) (hnul : 0 ∈ name)
    (hrestored : env.Quiet →
      restoreApp env.libraries fuel (image env start) = .ok (name, out))
    (htmp : env.Quiet → f env.tmp = start env.tmp) :
    Keeps (loaderWorld env start fuel) (Stops env start fuel)
      (tempStep env.args (.block appId) (.block nameId) (.block dstId) out.length)
      (withOutput trailer appId nameId dstId app name (out.map some ++ rest)) f := by
  obtain ⟨hmemApp, hmemDst, hdropApp, hdropDst⟩ :=
    @withOutput_mem κ α trailer (out.map some ++ rest) appId nameId dstId app name happ hdst hdstApp
  have hfds : ∀ fd, (withOutput trailer appId nameId dstId app name (out.map some ++ rest) :
      Proc κ α).fds fd = none := fun _ => rfl
  generalize withOutput trailer appId nameId dstId app name (out.map some ++ rest) = p at *
  have hliveDst : ∃ block, (p.drop (.block appId)).mem (.block dstId) = some block := by
    rw [hdropApp]
    exact ⟨_, Proc.putBytes_mem ..⟩
  unfold tempStep
  rw [ask_bind]
  refine keeps_getpid ?_
  rw [ask_bind]
  refine keeps_openTemp ?_ ?_
  · intro g fd hg hneg hwhy
    rw [if_pos hneg]
    refine keeps_warn (keeps_free ⟨_, hmemApp⟩ ?_)
    rw [Proc.drop_say]
    refine keeps_free hliveDst ?_
    rw [Proc.drop_say, hdropDst]
    refine keeps_leaking (by decide) ?_ ?_
    · intro hquiet hnot
      have herror := hwhy.resolve_left hnot
      rw [hquiet.tmp_kept hg, htmp hquiet] at herror
      exact Or.inr (Or.inr ⟨rfl, herror⟩)
    · exact fun hquiet => residue_untouched (by decide) ((hquiet.tmp_kept hg).trans (htmp hquiet))
  · intro g fd file hg hpos hfree hopen
    rw [if_neg (Int.not_lt.mpr hpos)]
    have hstart : env.Quiet → Function.update g env.tmp (some file) env.tmp =
        some ⟨file.mode, overlay out file.content 0⟩ := by
      intro _
      rw [Function.update_self, overlay_zero]
    refine (writeOut_keeps (w := 0) (d := ⟨env.tmp, 0⟩) (Proc.setFd_fds ..) rfl hmemDst rfl
      (Nat.zero_le _) hstart).bind ?_
    rintro complete p' g' ⟨⟨d, rfl⟩, hfailed, hdone⟩
    rw [Proc.setFd_setFd]
    have hclosed : (p.setFd fd d).closeFd fd = p := Proc.closeFd_setFd _ hfree
    cases complete with
    | false =>
        have hfail := hfailed rfl
        have hend : ∀ g'', (env.Quiet → ¬env.unlinkFails → g'' env.tmp = none) →
            Keeps (loaderWorld env start fuel) (Stops env start fuel)
              (do
                ask (.free (.block appId))
                ask (.free (.block dstId))
                ask (.free (.block nameId))
                return some writeAbort.exitCode)
              (p.say writeAbort.message) g'' := by
          intro g'' hremoved
          refine keeps_free ⟨_, hmemApp⟩ ?_
          rw [Proc.drop_say]
          refine keeps_free hliveDst ?_
          rw [Proc.drop_say, hdropDst]
          refine keeps_free ⟨_, Proc.putBytes_mem ..⟩ ?_
          rw [Proc.drop_say, Proc.drop_putBytes _ (Proc.base_block ..)]
          refine keeps_clean (by decide) (fun _ hnot => (hnot hfail).elim) ?_
          exact fun hquiet => residue_removed (by decide) (hremoved hquiet)
        refine keeps_warn (keeps_close ⟨d, Proc.setFd_fds ..⟩ ?_)
        rw [Proc.closeFd_say, hclosed]
        refine keeps_unlink ?_ ?_
        · intro hunlink
          exact hend g' fun _ hnot => (hnot hunlink).elim
        · intro g'' _
          exact hend _ fun _ _ => Function.update_self ..
    | true =>
        refine keeps_close ⟨d, Proc.setFd_fds ..⟩ ?_
        rw [hclosed]
        refine keeps_free ⟨_, hmemApp⟩ (keeps_free hliveDst ?_)
        rw [hdropDst]
        apply sealStep_keeps hnul
        intro hquiet
        rw [hquiet.tmp_kept hg, htmp hquiet] at hopen
        exact ⟨out, file, hrestored hquiet, hopen, hdone rfl hquiet⟩

/-! ## Step 5 -/

/-- The loop of step 5, from any turn on, with the app segment and the name in memory. -/
theorem growStep_keeps {trailer : Cells UInt8} {appId nameId dctx payloadStart turnsLeft : Nat}
    {app name payload : Bytes} {g : Grow} (happ : appId ≠ nameId) (hnul : 0 ∈ name)
    (hpayload : (app.drop payloadStart).take payload.length = payload)
    (hfits : payloadStart + payload.length ≤ app.length)
    (hrestored : env.Quiet → restoreApp env.libraries fuel (image env start) =
      (growFrom env.libraries payload turnsLeft g >>= fun out => .ok (name, out)))
    (htmp : env.Quiet → f env.tmp = start env.tmp) :
    Keeps (loaderWorld env start fuel) (Stops env start fuel)
      (growStep env.args (.block appId) (.block nameId) dctx payloadStart payload.length turnsLeft
        g.outSize none)
      ((((Proc.base trailer).putBytes (.block nameId) (name.map some)).putBytes (.block appId)
        (app.map some)).setDctx dctx g.attempt) f := by
  have hfreshApp : ((Proc.base trailer : Proc κ α).putBytes (.block nameId)
      (name.map some)).mem (.block appId) = none := by
    rw [Proc.putBytes_mem_of_ne _ (by simpa using happ), Proc.base_block]
  have huntouched : ∀ abort, abort ∉ tempTouched → env.Quiet → Residue env start abort f :=
    fun abort hplain hquiet => residue_untouched hplain (htmp hquiet)
  have hleak : ∀ attempts abort, abort ∈ nameLeaks → abort ∉ tempTouched →
      (env.Quiet → ¬env.mayFail → Cause env start fuel abort) →
      Keeps (loaderWorld env start fuel) (Stops env start fuel)
        (do
          ask (.freeDctx dctx)
          ask (.free (.block appId))
          return some abort.exitCode)
        (((((Proc.base trailer).putBytes (.block nameId) (name.map some)).putBytes (.block appId)
          (app.map some)).setDctx dctx attempts).say abort.message) f := by
    intro attempts abort hmem hplain hcause
    refine keeps_freeDctx ⟨_, Proc.setDctx_dctxs ..⟩ ?_
    rw [Proc.freeDctx_say, Proc.freeDctx_setDctx _ rfl]
    refine keeps_free ⟨_, Proc.putBytes_mem ..⟩ ?_
    rw [Proc.drop_say, Proc.drop_putBytes _ hfreshApp]
    exact keeps_leaking hmem hcause (huntouched abort hplain)
  induction turnsLeft generalizing g with
  | zero =>
      intro g' hg' hquiet
      rw [hrestored hquiet]
      rfl
  | succ turnsLeft ih =>
      rw [growStep]
      by_cases hcap : maxOut < g.outSize
      · rw [if_pos hcap]
        refine keeps_warn (hleak _ capAbort (by decide) (by decide) ?_)
        intro hquiet _
        rw [Cause, hrestored hquiet, growFrom_cap hcap]
        exact Or.inr (Or.inl rfl)
      · rw [if_neg hcap]
        refine keeps_malloc ?_ ?_
        · intro hfail
          exact keeps_warn (hleak _ outputAbort (by decide) (by decide) fun _ hnot =>
            (hnot hfail).elim)
        · intro dstId hfree
          have hnameMem : (((Proc.base trailer : Proc κ α).putBytes (.block nameId)
              (name.map some)).putBytes (.block appId) (app.map some)).mem (.block nameId) =
                some (.bytes (name.map some)) := by
            rw [Proc.putBytes_mem_of_ne _ (by simpa using happ.symm), Proc.putBytes_mem]
          have happMem : (((Proc.base trailer : Proc κ α).putBytes (.block nameId)
              (name.map some)).putBytes (.block appId) (app.map some)).mem (.block appId) =
                some (.bytes (app.map some ++ [])) := by
            rw [List.append_nil, Proc.putBytes_mem]
          rw [Proc.setDctx_mem] at hfree
          have hdstName := Proc.block_ne_of_free hfree hnameMem
          have hdstApp := Proc.block_ne_of_free hfree happMem
          refine keeps_decompressDctx (Proc.setDctx_dctxs ..) (Proc.putBytes_mem ..)
            (fresh_length _) (by simpa using hdstApp)
            ((Proc.putBytes_mem_of_ne _ (by simpa using hdstApp.symm)).trans happMem) hfits ?_ ?_
          · intro out after hout
            rw [hpayload] at hout
            rw [Proc.setDctx_putBytes, Proc.setDctx_putBytes, Proc.putBytes_putBytes,
              Proc.setDctx_setDctx]
            refine keeps_freeDctx ⟨_, Proc.setDctx_dctxs ..⟩ ?_
            rw [Proc.freeDctx_setDctx _ rfl]
            refine tempStep_keeps happ hdstName hdstApp hnul ?_ htmp
            intro hquiet
            rw [hrestored hquiet, growFrom_ok hcap hout]
            rfl
          · intro e after he
            rw [hpayload] at he
            rw [Proc.setDctx_putBytes, Proc.setDctx_putBytes, Proc.putBytes_putBytes,
              Proc.setDctx_setDctx]
            refine keeps_free ⟨_, Proc.putBytes_mem ..⟩ ?_
            rw [Proc.setDctx_drop, Proc.drop_putBytes _ hfree]
            refine @ih ⟨g.attempt + 1, saturatingMul g.outSize 2⟩ ?_
            intro hquiet
            rw [hrestored hquiet, growFrom_error hcap he]

/-- Step 5, and on, with the app segment and the name in memory. -/
theorem decompressStep_keeps {trailer : Cells UInt8} {appId nameId payloadStart : Nat}
    {app name payload : Bytes} (happ : appId ≠ nameId) (hnul : 0 ∈ name)
    (hpayload : (app.drop payloadStart).take payload.length = payload)
    (hfits : payloadStart + payload.length ≤ app.length)
    (hparsed : env.Quiet → parseFile (image env start) = .ok ⟨name, payload⟩)
    (htmp : env.Quiet → f env.tmp = start env.tmp) :
    Keeps (loaderWorld env start fuel) (Stops env start fuel)
      (decompressStep env.args fuel (.block appId) (.block nameId) payloadStart payload.length)
      (((Proc.base trailer).putBytes (.block nameId) (name.map some)).putBytes (.block appId)
        (app.map some)) f := by
  have hfreshApp : ((Proc.base trailer : Proc κ α).putBytes (.block nameId)
      (name.map some)).mem (.block appId) = none := by
    rw [Proc.putBytes_mem_of_ne _ (by simpa using happ), Proc.base_block]
  have hsrc : (((Proc.base trailer : Proc κ α).putBytes (.block nameId)
      (name.map some)).putBytes (.block appId) (app.map some)).mem (.block appId) =
        some (.bytes (app.map some ++ [])) := by
    rw [List.append_nil, Proc.putBytes_mem]
  unfold decompressStep
  rw [ask_bind]
  refine keeps_frameContentSize hsrc hfits ?_
  · rw [hpayload, ask_bind]
    refine keeps_createDctx ?_ ?_
    · intro hfail
      refine keeps_warn (keeps_free ⟨_, Proc.putBytes_mem ..⟩ ?_)
      rw [Proc.drop_say, Proc.drop_putBytes _ hfreshApp]
      exact keeps_leaking (by decide) (fun _ hnot => (hnot hfail).elim)
        fun hquiet => residue_untouched (by decide) (htmp hquiet)
    · intro dctx _
      refine growStep_keeps (g := ⟨0, _⟩) happ hnul hpayload hfits ?_ htmp
      intro hquiet
      rw [restoreApp, hparsed hquiet, ok_bind, decompressApp, growLoop_eq_growFrom,
        ← outSizeOf_eq]
      rfl

/-! ## Step 4 -/

/-- Step 4, and on, with the app segment as the only block. -/
theorem headerStep_keeps {trailer : Cells UInt8} {appId : Nat} {appBuf : Bytes}
    (hparsed : env.Quiet → parseFile (image env start) = parseApp appBuf)
    (htmp : env.Quiet → f env.tmp = start env.tmp) :
    Keeps (loaderWorld env start fuel) (Stops env start fuel)
      (headerStep env.args fuel (.block appId) appBuf.length)
      ((Proc.base trailer).putBytes (.block appId) (appBuf.map some)) f := by
  have hsrc : ((Proc.base trailer : Proc κ α).putBytes (.block appId) (appBuf.map some)).mem
      (.block appId) = some (.bytes (appBuf.map some ++ [])) := by
    rw [List.append_nil, Proc.putBytes_mem]
  unfold headerStep
  rw [ask_bind]
  refine keeps_load hsrc (by omega) ?_
  · rw [List.drop_zero, List.take_length]
    rcases parseApp_formatError appBuf with ⟨parsed, hok⟩ | ⟨abort, herror, hformat⟩
    · rw [hok]
      refine keeps_malloc ?_ ?_
      · intro hfail
        refine keeps_warn (keeps_free ⟨_, Proc.putBytes_mem ..⟩ ?_)
        rw [Proc.drop_say, Proc.drop_putBytes _ (Proc.base_block ..)]
        exact keeps_clean (by decide) (fun _ hnot => (hnot hfail).elim)
          fun hquiet => residue_untouched (by decide) (htmp hquiet)
      · intro nameId hfree
        have hne := Proc.block_ne_of_free hfree (Proc.putBytes_mem ..)
        have hcopy : overwrite (fresh UInt8 parsed.nameCString.length) 0 parsed.nameCString =
            parsed.nameCString.map some := by
          have hfront := overwrite_front [] parsed.nameCString
            (fresh UInt8 parsed.nameCString.length)
          rw [List.drop_of_length_le (Nat.le_of_eq (fresh_length _)), List.append_nil] at hfront
          exact hfront
        rcases parsed_fits hok with ⟨hnul, hfits, hpayload⟩
        refine keeps_store (Proc.putBytes_mem ..) (by rw [fresh_length]; omega) ?_
        rw [hcopy, Proc.putBytes_putBytes, Proc.putBytes_comm _ _ (by simpa using hne.symm)]
        refine decompressStep_keeps hne.symm hnul hpayload hfits ?_ htmp
        exact fun hquiet => (hparsed hquiet).trans hok
    · rw [herror]
      refine keeps_warn (keeps_free ⟨_, Proc.putBytes_mem ..⟩ ?_)
      rw [Proc.drop_say, Proc.drop_putBytes _ (Proc.base_block ..)]
      refine keeps_clean hformat.not_mem_nameLeaks ?_ ?_
      · intro hquiet _
        rw [Cause, restoreApp, hparsed hquiet, herror]
        exact Or.inr (Or.inl rfl)
      · exact fun hquiet => residue_untouched hformat.not_mem_tempTouched (htmp hquiet)

/-! ## Step 3 -/

/-- Step 3, and on, with no block at all. -/
theorem segmentStep_keeps {trailer : Cells UInt8} {packed : PathArg α} {appStart appLen : Nat}
    (hpath : env.Quiet → env.argumentPlace packed = some env.self)
    (hself : env.Quiet → OwnFile env start f)
    (htrailer : env.Quiet → readTrailer (image env start) = .ok (appStart, appLen))
    (htmp : env.Quiet → f env.tmp = start env.tmp) :
    Keeps (loaderWorld env start fuel) (Stops env start fuel)
      (segmentStep env.args fuel packed appStart appLen) (Proc.base trailer) f := by
  unfold segmentStep
  rw [ask_bind]
  refine keeps_malloc ?_ ?_
  · intro hfail
    exact keeps_warn (keeps_clean (by decide) (fun _ hnot => (hnot hfail).elim)
      fun hquiet => residue_untouched (by decide) (htmp hquiet))
  · intro appId _
    dsimp only
    rw [ask_bind]
    refine keeps_open (Or.inl rfl) ?_ ?_
    · intro g fd hg hneg hwhy
      rw [if_pos hneg]
      refine keeps_warn (keeps_free ⟨_, Proc.putBytes_mem ..⟩ ?_)
      rw [Proc.drop_say, Proc.drop_putBytes _ (Proc.base_block ..)]
      refine keeps_clean (by decide) ?_ ?_
      · intro hquiet hnot
        exact (hnot (((hself hquiet).rely hquiet hg).mayFail (hpath hquiet) hwhy)).elim
      · exact fun hquiet => residue_untouched (by decide) ((hquiet.tmp_kept hg).trans (htmp hquiet))
    · intro g fd place node hg hpos hfree hplace hnode
      rw [if_neg (Int.not_lt.mpr hpos)]
      refine (seekAndRead_keeps (Proc.setFd_fds ..) (Proc.putBytes_setFd_mem ..)
        (fresh_length _)).bind ?_
      rintro complete p' g' ⟨hg', bytes, rest, d, rfl, hlen, hrest, hfollows⟩
      have hown : env.Quiet → ∃ node, Stays env g place node ∧ node.content = image env start := by
        intro hquiet
        rw [hpath hquiet] at hplace
        cases hplace
        exact ((hself hquiet).rely hquiet hg).stays hquiet
      have htmp' : env.Quiet → g' env.tmp = start env.tmp := by
        intro hquiet
        rw [hquiet.tmp_kept hg', hquiet.tmp_kept hg, htmp hquiet]
      rw [Proc.setFd_putBytes, Proc.putBytes_putBytes, Proc.setFd_setFd]
      have hclosed : (((Proc.base trailer : Proc κ α).putBytes (.block appId)
          (bytes.map some ++ rest)).setFd fd d).closeFd fd =
            (Proc.base trailer).putBytes (.block appId) (bytes.map some ++ rest) :=
        Proc.closeFd_setFd _ rfl
      cases complete with
      | false =>
          refine keeps_warn (keeps_close ⟨d, Proc.setFd_fds ..⟩ ?_)
          rw [Proc.closeFd_say, hclosed]
          refine keeps_free ⟨_, Proc.putBytes_mem ..⟩ ?_
          rw [Proc.drop_say, Proc.drop_putBytes _ (Proc.base_block ..)]
          refine keeps_clean (by decide) ?_ fun hquiet =>
            residue_untouched (by decide) (htmp' hquiet)
          intro hquiet hnot
          rcases hown hquiet with ⟨own, hstays, hcontent⟩
          have hshort := (hfollows own hstays).2 rfl hnot
          rw [hcontent] at hshort
          have hin := (readExact_of_readTrailer (htrailer hquiet)).2.1
          omega
      | true =>
          refine keeps_close ⟨d, Proc.setFd_fds ..⟩ ?_
          rw [hclosed, hrest rfl, List.append_nil]
          have hcount : bytes.length = appLen := by
            rw [hrest rfl] at hlen
            exact hlen
          rw [← hcount]
          refine headerStep_keeps ?_ htmp'
          intro hquiet
          rcases hown hquiet with ⟨own, hstays, hcontent⟩
          have hprefix := (hfollows own hstays).1
          rw [hcontent] at hprefix
          have hbytes : bytes = ((image env start).drop appStart).take appLen := by
            rw [← hcount]
            exact List.prefix_iff_eq_take.mp hprefix
          have hin := (readExact_of_readTrailer (htrailer hquiet)).2.1
          have hread : appStart + appLen ≤ (image env start).length := by omega
          rw [parseFile, htrailer hquiet, ok_bind]
          simp only [readExact, if_pos hread, ← hbytes]

/-! ## Steps 1 and 2 -/

/-- The loader finds the packed file, whichever of its three ways it goes. -/
theorem selfPath_keeps :
    Keeps (loaderWorld env start fuel)
      (fun packed p' f' => p' = p ∧ env.rely f f' ∧
        (env.Quiet → env.argumentPlace packed = some env.self))
      selfPath p f := by
  refine keeps_own trivial (by simp) ?_
  rintro g found p' f' ⟨rfl, rfl, hfound⟩
  refine ⟨rfl, fun _ => ?_⟩
  cases found with
  | some path =>
      refine keeps_own trivial (by simp) ?_
      rintro g' canon p'' f'' ⟨rfl, rfl, hcanon⟩
      refine ⟨rfl, fun _ g'' hg'' => ⟨rfl, hg'', fun _ => ?_⟩⟩
      change env.placeOf (canon.getD path) = some env.self
      cases canon with
      | none => exact hfound
      | some canon => exact (hcanon canon rfl).trans hfound
  | none =>
      refine keeps_loadArg (Nat.zero_le _) ?_
      exact fun g' hg' => ⟨rfl, hg', fun hquiet => hquiet.argv_self hfound⟩

/-- Step 2, and on, with the packed file open and nothing in memory. -/
theorem trailerStep_keeps {trailer : Cells UInt8} {packed : PathArg α} {fd : Int} {d : Desc κ}
    {total : Nat} (harray : trailer.length = trailerLen)
    (hpath : env.Quiet → env.argumentPlace packed = some env.self)
    (hplace : env.Quiet → d.place = env.self) (hself : env.Quiet → OwnFile env start f)
    (htotal : env.Quiet → total = (image env start).length) (hlong : trailerLen ≤ total)
    (htmp : env.Quiet → f env.tmp = start env.tmp) :
    Keeps (loaderWorld env start fuel) (Stops env start fuel)
      (trailerStep env.args fuel packed fd total) ((Proc.base trailer).setFd fd d) f := by
  have harrayMem : ((Proc.base trailer : Proc κ α).setFd fd d).mem .trailer =
      some (.bytes trailer) := by
    rw [Proc.setFd_mem, Proc.base_trailer]
  unfold trailerStep
  refine (seekAndRead_keeps (Proc.setFd_fds ..) harrayMem harray).bind ?_
  rintro complete p' g ⟨hg, bytes, rest, d', rfl, hlen, hrest, hfollows⟩
  have htmp' : env.Quiet → g env.tmp = start env.tmp :=
    fun hquiet => (hquiet.tmp_kept hg).trans (htmp hquiet)
  have hown : env.Quiet → ∃ node, Stays env f d.place node ∧ node.content = image env start := by
    intro hquiet
    rw [hplace hquiet]
    exact (hself hquiet).stays hquiet
  rw [Proc.setFd_putBytes, Proc.putBytes_trailer, Proc.setFd_setFd]
  have hclosed : ((Proc.base (bytes.map some ++ rest) : Proc κ α).setFd fd d').closeFd fd =
      Proc.base (bytes.map some ++ rest) :=
    Proc.closeFd_setFd _ rfl
  cases complete with
  | false =>
      refine keeps_warn (keeps_close ⟨d', Proc.setFd_fds ..⟩ ?_)
      rw [Proc.closeFd_say, hclosed]
      refine keeps_clean (by decide) ?_ fun hquiet => residue_untouched (by decide) (htmp' hquiet)
      intro hquiet hnot
      rcases hown hquiet with ⟨own, hstays, hcontent⟩
      have hshort := (hfollows own hstays).2 rfl hnot
      rw [hcontent, ← htotal hquiet] at hshort
      omega
  | true =>
      refine keeps_close ⟨d', Proc.setFd_fds ..⟩ ?_
      rw [hclosed, hrest rfl, List.append_nil]
      have hcount : bytes.length = trailerLen := by
        rw [hrest rfl] at hlen
        exact hlen
      have hmem : (Proc.base (bytes.map some) : Proc κ α).mem .trailer =
          some (.bytes (bytes.map some ++ [])) := by
        rw [List.append_nil, Proc.base_trailer]
      have hread : env.Quiet → readTrailer (image env start) = checkTrailer total bytes := by
        intro hquiet
        rcases hown hquiet with ⟨own, hstays, hcontent⟩
        have hprefix := (hfollows own hstays).1
        rw [hcontent, htotal hquiet] at hprefix
        have hall : bytes = (image env start).drop ((image env start).length - trailerLen) := by
          apply hprefix.eq_of_length
          rw [hcount, List.length_drop, ← htotal hquiet]
          omega
        rw [htotal hquiet] at hlong
        rw [readTrailer_eq_checkTrailer hlong, ← hall, htotal hquiet]
      rw [ask_bind]
      refine keeps_load hmem (by omega) ?_
      rw [List.drop_zero, ← hcount, List.take_length]
      rcases checkTrailer_formatError hlong hcount with
        ⟨⟨appStart, appLen⟩, hok⟩ | ⟨abort, herror, hformat⟩
      · rw [hok]
        exact segmentStep_keeps hpath (fun hquiet => (hself hquiet).rely hquiet hg)
          (fun hquiet => (hread hquiet).trans hok) htmp'
      · rw [herror]
        refine keeps_warn (keeps_clean hformat.not_mem_nameLeaks ?_ ?_)
        · intro hquiet _
          rw [Cause, restoreApp, parseFile, hread hquiet, herror]
          exact Or.inr (Or.inl rfl)
        · exact fun hquiet => residue_untouched hformat.not_mem_tempTouched (htmp' hquiet)

/-- `real_main` makes legal calls only and ends as promised, whatever the other processes
do and whichever calls fail. -/
theorem realMain_keeps :
    Keeps (loaderWorld env start fuel) (Stops env start fuel) (realMain env.args fuel)
      (Proc.base zeroTrailer) start := by
  refine selfPath_keeps.bind ?_
  rintro packed p' f' ⟨rfl, hf', hpath⟩
  have htmp : ∀ g, env.rely f' g → env.Quiet → g env.tmp = start env.tmp :=
    fun g hg hquiet => hquiet.tmp_kept (env.rely_trans hf' hg)
  have hkept : ∀ g, env.rely f' g → env.Quiet → g env.self = start env.self :=
    fun g hg hquiet => hquiet.self_kept (env.rely_trans hf' hg)
  rw [ask_bind]
  refine keeps_open (Or.inl rfl) ?_ ?_
  · intro g fd hg hneg hwhy
    rw [if_pos hneg]
    refine keeps_warn (keeps_clean (by decide) ?_ ?_)
    · intro hquiet hnot
      refine Or.inl ?_
      cases hnode : start env.self with
      | none => rfl
      | some node =>
          have hown : OwnFile env start g := ⟨node, (hkept g hg hquiet).trans hnode, hnode⟩
          exact (hnot (hown.mayFail (hpath hquiet) hwhy)).elim
    · exact fun hquiet => residue_untouched (by decide) (htmp g hg hquiet)
  · intro g fd place node hg hpos hfree hplace hnode
    rw [if_neg (Int.not_lt.mpr hpos)]
    have hself : env.Quiet → place = env.self := by
      intro hquiet
      rw [hpath hquiet] at hplace
      exact (Option.some.inj hplace).symm
    have hown : env.Quiet → OwnFile env start g := by
      intro hquiet
      rw [hself hquiet] at hnode
      exact ⟨node, hnode, (hkept g hg hquiet).symm.trans hnode⟩
    have hclosed : ∀ d : Desc κ, ((Proc.base zeroTrailer : Proc κ α).setFd fd d).closeFd fd =
        Proc.base zeroTrailer :=
      fun d => Proc.closeFd_setFd d hfree
    rw [ask_bind]
    refine keeps_seekEnd (Proc.setFd_fds ..) ?_ ?_
    · intro r hneg hfail
      rw [if_pos hneg]
      refine keeps_warn (keeps_close ⟨_, Proc.setFd_fds ..⟩ ?_)
      rw [Proc.closeFd_say, hclosed]
      exact keeps_clean (by decide) (fun _ hnot => (hnot hfail).elim)
        fun hquiet => residue_untouched (by decide) (htmp g hg hquiet)
    · intro size hsize
      have htotal : env.Quiet → size = (image env start).length := by
        intro hquiet
        rcases (hown hquiet).stays hquiet with ⟨own, hstays, hcontent⟩
        rw [← hself hquiet] at hstays
        rw [hsize own hstays, hcontent]
      have hnonneg : ¬(size : Int) < 0 := by omega
      rw [if_neg hnonneg, Int.toNat_natCast, Proc.setFd_setFd]
      by_cases hshort : size < trailerLen
      · rw [if_pos hshort]
        refine keeps_warn (keeps_close ⟨_, Proc.setFd_fds ..⟩ ?_)
        rw [Proc.closeFd_say, hclosed]
        refine keeps_clean (by decide) ?_ ?_
        · intro hquiet _
          rw [htotal hquiet] at hshort
          rw [Cause, restoreApp, parseFile, readTrailer_of_short (Nat.not_le.mpr hshort)]
          exact Or.inr (Or.inl rfl)
        · exact fun hquiet => residue_untouched (by decide) (htmp g hg hquiet)
      · rw [if_neg hshort]
        exact trailerStep_keeps (by decide) hpath hself hown htotal (Nat.not_lt.mp hshort)
          (htmp g hg)

end Discipline

end Loader
end Upxz
