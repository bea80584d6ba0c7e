import Upxz.Loader.Darwin

/-!
# Loader - What a run of the loader promises

The legal calls of a loader process, and what it may be said to have done when it stops:
the promise that `real_main` is proved to keep.  Memory and descriptors are treated
properly whatever other processes do to the files; what reaches `execv` is right as long
as they leave the packed file and the temp file alone.

The second half are the rules for the calls, one each, by which the promise is carried
through `real_main`.

Main results:

- Theorem `exec_legal`: the vector that step 9 builds is one that `execv` may be given.
- Theorems `keeps_read` and `keeps_write`: what a short read or write leaves to be done.
- Theorems `keeps_clean` and `keeps_leaking`: the two ways in which a run may end.
-/

namespace Upxz
namespace Loader

open Machine Format

section Contracts

variable {κ α : Type}

/-! ## The exec vector -/

/-- The name and the arguments but the first, as the exec vector holds them. -/
def execPointerSlots (env : Darwin κ α) (name : Addr) : List (Slot α) :=
  .block name :: (env.args.argv.drop 1).map .given

theorem execPointerSlots_length (env : Darwin κ α) (name : Addr) :
    (execPointerSlots env name).length = userArgc env.args + 1 := by
  rw [execPointerSlots, List.length_cons, List.length_map, List.length_drop, userArgc_eq]

/-- The next slot holds the next argument. -/
theorem execPointerSlots_take (env : Darwin κ α) (name : Addr) {i : Nat} (hpos : 1 ≤ i)
    (hle : i ≤ userArgc env.args) :
    (execPointerSlots env name).take (i + 1) =
      (execPointerSlots env name).take i ++ [.given (env.argvAt i)] := by
  rcases Nat.exists_eq_add_of_le' hpos with ⟨k, rfl⟩
  have huser := userArgc_eq env.args
  have hlt : k + 1 < env.args.argv.length := by omega
  have hslot : (execPointerSlots env name)[k + 1]? = some (.given (env.argvAt (k + 1))) := by
    rw [execPointerSlots, List.getElem?_cons_succ, List.getElem?_map, List.getElem?_drop,
      Nat.add_comm 1 k, Darwin.argvAt, List.getElem?_eq_getElem hlt]
    rfl
  rw [List.take_add_one, hslot]
  rfl

/-- The slots of the exec vector: the name, the arguments but the first, a null pointer. -/
def execSlots (env : Darwin κ α) (name : Addr) : Cells (Slot α) :=
  (execPointerSlots env name ++ [Slot.given .null]).map some

theorem block_mem_execSlots {env : Darwin κ α} {name a : Addr} :
    some (Slot.block a) ∈ execSlots env name ↔ a = name := by
  unfold execSlots execPointerSlots
  rw [List.mem_map]
  constructor
  · rintro ⟨slot, hslot, heq⟩
    cases heq
    rw [List.mem_append, List.mem_cons, List.mem_map, List.mem_singleton] at hslot
    rcases hslot with (hname | ⟨p, -, hp⟩) | hnull
    · cases hname
      rfl
    · cases hp
    · cases hnull
  · rintro rfl
    exact ⟨.block a, by simp, rfl⟩

/-! ## The promise -/

variable [DecidableEq κ]

/-- Others leave the packed file and the temp file alone, and `argv[0]` leads to the packed
file should dyld not know it. -/
structure Darwin.Quiet (env : Darwin κ α) : Prop where
  self_kept : ∀ {f g}, env.rely f g → g env.self = f env.self
  tmp_kept : ∀ {f g}, env.rely f g → g env.tmp = f env.tmp
  argv_self : env.dyldFails → env.argPlace (env.argvAt 0) = some env.self

/-- The content of the packed file. -/
def image (env : Darwin κ α) (start : Files κ) : Bytes :=
  ((start env.self).map TempNode.content).getD []

/-- What the temp file holds once `codesign` is through with it. -/
def Signed (env : Darwin κ α) (filled content : Bytes) : Prop :=
  content = filled ∨ env.codesign filled content

/-- The restored binary stands sealed in the temp file: what the packed file unpacks to,
written over what was left there, and signed. -/
def Sealed (env : Darwin κ α) (start : Files κ) (fuel : Nat) (name : Bytes) (f : Files κ) :
    Prop :=
  ∃ original file content,
    restoreApp env.libraries fuel (image env start) = .ok (name, original) ∧
    darwinOpen env.root openFlags 0o600 (start env.tmp) = .ok file ∧
    f env.tmp = some ⟨0o500, content⟩ ∧
    Signed env (overlay original file.content original.length) content

/-- `execv` starts the restored binary with its name and the user's arguments. -/
def StartsOriginal (env : Darwin κ α) (start : Files κ) (fuel : Nat) (p : Proc κ α)
    (f : Files κ) : SysCall α → Prop
  | .execv _ (.vector a) => env.Quiet → ∃ name nameAddr, Sealed env start fuel name f ∧
      p.mem nameAddr = some (.bytes (name.map some)) ∧
      p.mem a = some (.pointers (execSlots env nameAddr))
  | _ => True

/-- The ends of a run that leave the copy of the name unfreed. -/
def nameLeaks : List Abort :=
  [dctxAbort, capAbort, outputAbort, tempFileAbort, chmodAbort]

/-- The blocks that are live at the end: none, or the copy of the name. -/
def Leaks (abort : Abort) (mem : Memory Addr (Block α)) : Prop :=
  if abort ∈ nameLeaks then
    ∃ id cells, mem (.block id) = some (.bytes cells) ∧
      ∀ other, other ≠ id → mem (.block other) = none
  else ∀ id, mem (.block id) = none

/-- Why a run ends when no call fails: there is no packed file, it cannot be unpacked, or
what was left under the temp path is in the way. -/
def Cause (env : Darwin κ α) (start : Files κ) (fuel : Nat) (abort : Abort) : Prop :=
  start env.self = none ∨
    restoreApp env.libraries fuel (image env start) = .error (.err abort) ∨
    abort = tempFileAbort ∧
      ∃ errno, darwinOpen env.root openFlags 0o600 (start env.tmp) = .error errno

/-- The ends of a run that come after the temp file was opened. -/
def tempTouched : List Abort :=
  [writeAbort, chmodAbort, vectorAbort, execAbort]

/-- What a run that ends leaves under its temp path: what was there before, nothing, or the
file it could not seal or not start. -/
structure Residue (env : Darwin κ α) (start : Files κ) (abort : Abort) (f : Files κ) : Prop where
  untouched : abort ∉ tempTouched → f env.tmp = start env.tmp
  removed : ¬env.unlinkFails → abort ∈ [writeAbort, execAbort] → f env.tmp = none
  left : abort ∈ [chmodAbort, vectorAbort] → f env.tmp ≠ none

/-- How a run ends that does not reach the restored binary. -/
structure Ends (env : Darwin κ α) (start : Files κ) (fuel : Nat) (abort : Abort)
    (p : Proc κ α) (f : Files κ) : Prop where
  said : p.said = [abort.message]
  fds : p.fds = fun _ => none
  dctxs : p.dctxs = fun _ => none
  leaks : Leaks abort p.mem
  cause : env.Quiet → ¬env.mayFail → Cause env start fuel abort
  residue : env.Quiet → Residue env start abort f

/-- What `real_main` returns with.  Without an exit code the loop of step 5 used up its
turns. -/
def Stops (env : Darwin κ α) (start : Files κ) (fuel : Nat) :
    Option Nat → Proc κ α → Files κ → Prop
  | some code, p, f => ∃ abort, code = abort.exitCode ∧ Ends env start fuel abort p f
  | none, _, _ => env.Quiet →
      restoreApp env.libraries fuel (image env start) = .error .timeout

/-- The world of a loader process, with the promise for its legal calls. -/
def loaderWorld (env : Darwin κ α) (start : Files κ) (fuel : Nat) :
    World (SysCall α) Answer (Proc κ α) (Files κ) where
  Legal p f c := Disciplined env p c ∧ StartsOriginal env start fuel p f c
  Acts := Acts env
  Rely := env.rely
  rely_refl := env.rely_refl
  rely_trans := env.rely_trans

/-- The process as it starts: nothing but the trailer array. -/
def Proc.base (trailer : Cells UInt8) : Proc κ α where
  mem := fun a => if a = .trailer then some (.bytes trailer) else none
  fds := fun _ => none
  dctxs := fun _ => none
  said := []

/-- The trailer array as it starts. -/
def zeroTrailer : Cells UInt8 :=
  (List.replicate trailerLen 0).map some

end Contracts

/-! ## The state of a process -/

namespace Proc

variable {κ α : Type} {p : Proc κ α}

@[simp]
theorem base_trailer (trailer : Cells UInt8) :
    (base trailer : Proc κ α).mem .trailer = some (.bytes trailer) := by
  simp [base]

@[simp]
theorem base_block (trailer : Cells UInt8) (id : Nat) :
    (base trailer : Proc κ α).mem (.block id) = none := by
  simp [base]

@[simp]
theorem base_fds (trailer : Cells UInt8) : (base trailer : Proc κ α).fds = fun _ => none :=
  rfl

@[simp]
theorem base_dctxs (trailer : Cells UInt8) : (base trailer : Proc κ α).dctxs = fun _ => none :=
  rfl

@[simp]
theorem putBytes_trailer (trailer trailer' : Cells UInt8) :
    (base trailer : Proc κ α).putBytes .trailer trailer' = base trailer' := by
  unfold putBytes base Memory.put
  congr 1
  funext a
  by_cases ha : a = .trailer
  · subst ha
    simp
  · simp [ha]

@[simp]
theorem putBytes_mem (a : Addr) (cells : Cells UInt8) :
    (p.putBytes a cells).mem a = some (.bytes cells) :=
  Memory.put_same ..

@[simp]
theorem putBytes_setFd_mem (a : Addr) (cells : Cells UInt8) (fd : Int) (d : Desc κ) :
    ((p.putBytes a cells).setFd fd d).mem a = some (.bytes cells) :=
  putBytes_mem ..

@[simp]
theorem putBytes_mem_of_ne {a b : Addr} (cells : Cells UInt8) (h : b ≠ a) :
    (p.putBytes a cells).mem b = p.mem b :=
  Memory.put_of_ne _ h

@[simp]
theorem putPointers_mem (a : Addr) (slots : Cells (Slot α)) :
    (p.putPointers a slots).mem a = some (.pointers slots) :=
  Memory.put_same ..

@[simp]
theorem putPointers_mem_of_ne {a b : Addr} (slots : Cells (Slot α)) (h : b ≠ a) :
    (p.putPointers a slots).mem b = p.mem b :=
  Memory.put_of_ne _ h

@[simp]
theorem putBytes_putBytes (a : Addr) (cells cells' : Cells UInt8) :
    (p.putBytes a cells).putBytes a cells' = p.putBytes a cells' := by
  simp [putBytes]

@[simp]
theorem putPointers_putPointers (a : Addr) (slots slots' : Cells (Slot α)) :
    (p.putPointers a slots).putPointers a slots' = p.putPointers a slots' := by
  simp [putPointers]

@[simp]
theorem setFd_setFd (fd : Int) (d d' : Desc κ) : (p.setFd fd d).setFd fd d' = p.setFd fd d' := by
  simp [setFd]

@[simp]
theorem say_mem (message : String) : (p.say message).mem = p.mem :=
  rfl

@[simp]
theorem drop_say (message : String) (a : Addr) :
    (p.say message).drop a = (p.drop a).say message :=
  rfl

@[simp]
theorem closeFd_say (message : String) (fd : Int) :
    (p.say message).closeFd fd = (p.closeFd fd).say message :=
  rfl

@[simp]
theorem freeDctx_say (message : String) (dctx : Nat) :
    (p.say message).freeDctx dctx = (p.freeDctx dctx).say message :=
  rfl

@[simp]
theorem setFd_putBytes (fd : Int) (d : Desc κ) (a : Addr) (cells : Cells UInt8) :
    (p.setFd fd d).putBytes a cells = (p.putBytes a cells).setFd fd d :=
  rfl

@[simp]
theorem setFd_mem (fd : Int) (d : Desc κ) : (p.setFd fd d).mem = p.mem :=
  rfl

@[simp]
theorem setDctx_mem (dctx n : Nat) : (p.setDctx dctx n).mem = p.mem :=
  rfl

/-- A block allocated now is none of the live ones. -/
theorem block_ne_of_free {id other : Nat} {block : Block α} (hfree : p.mem (.block id) = none)
    (hlive : p.mem (.block other) = some block) : id ≠ other := by
  rintro rfl
  rw [hfree] at hlive
  cases hlive

@[simp]
theorem setDctx_putBytes (dctx n : Nat) (a : Addr) (cells : Cells UInt8) :
    (p.setDctx dctx n).putBytes a cells = (p.putBytes a cells).setDctx dctx n :=
  rfl

@[simp]
theorem setDctx_drop (dctx n : Nat) (a : Addr) :
    (p.setDctx dctx n).drop a = (p.drop a).setDctx dctx n :=
  rfl

@[simp]
theorem setDctx_setDctx (dctx n n' : Nat) :
    (p.setDctx dctx n).setDctx dctx n' = p.setDctx dctx n' := by
  simp [setDctx]

/-- Putting the block that is there changes nothing. -/
theorem putBytes_self {a : Addr} {cells : Cells UInt8} (h : p.mem a = some (.bytes cells)) :
    p.putBytes a cells = p := by
  unfold putBytes Memory.put
  rw [← h, Function.update_eq_self]

theorem setFd_self {fd : Int} {d : Desc κ} (h : p.fds fd = some d) : p.setFd fd d = p := by
  unfold setFd Memory.put
  rw [← h, Function.update_eq_self]

/-- The order in which two blocks were put does not show. -/
theorem putBytes_comm {a b : Addr} (cells cells' : Cells UInt8) (h : a ≠ b) :
    (p.putBytes a cells).putBytes b cells' = (p.putBytes b cells').putBytes a cells := by
  unfold putBytes
  simp only [Memory.put_comm _ _ _ h]

/-- Freeing the block that was put last. -/
theorem drop_putBytes {a : Addr} (cells : Cells UInt8) (h : p.mem a = none) :
    (p.putBytes a cells).drop a = p := by
  unfold putBytes drop
  simp only [Memory.drop_put _ h]

theorem drop_putPointers {a : Addr} (slots : Cells (Slot α)) (h : p.mem a = none) :
    (p.putPointers a slots).drop a = p := by
  unfold putPointers drop
  simp only [Memory.drop_put _ h]

/-- Freeing a block that was there before another was put. -/
theorem drop_putBytes_of_ne {a b : Addr} (cells : Cells UInt8) (h : a ≠ b) :
    (p.putBytes a cells).drop b = (p.drop b).putBytes a cells := by
  unfold putBytes drop
  simp only [Memory.drop_put_of_ne _ _ h]

theorem drop_putPointers_of_ne {a b : Addr} (slots : Cells (Slot α)) (h : a ≠ b) :
    (p.putPointers a slots).drop b = (p.drop b).putPointers a slots := by
  unfold putPointers drop
  simp only [Memory.drop_put_of_ne _ _ h]

/-- Closing the descriptor that was opened. -/
theorem closeFd_setFd {fd : Int} (d : Desc κ) (h : p.fds fd = none) :
    (p.setFd fd d).closeFd fd = p := by
  unfold setFd closeFd
  simp only [Memory.drop_put _ h]

/-- Freeing the context that was created. -/
theorem freeDctx_setDctx {dctx : Nat} (n : Nat) (h : p.dctxs dctx = none) :
    (p.setDctx dctx n).freeDctx dctx = p := by
  unfold setDctx freeDctx
  simp only [Memory.drop_put _ h]

@[simp]
theorem setFd_fds (fd : Int) (d : Desc κ) : (p.setFd fd d).fds fd = some d :=
  Memory.put_same ..

@[simp]
theorem setDctx_dctxs (dctx n : Nat) : (p.setDctx dctx n).dctxs dctx = some n :=
  Memory.put_same ..

end Proc

/-! ## Ends -/

section Ends

variable {κ α : Type} {env : Darwin κ α} {start : Files κ} {fuel : Nat} {f : Files κ}

/-- What the sealed temp file holds is not changed by others. -/
theorem Sealed.rely {name : Bytes} {g : Files κ} (hquiet : env.Quiet) (hg : env.rely f g)
    (h : Sealed env start fuel name f) : Sealed env start fuel name g := by
  rcases h with ⟨original, file, content, hrestore, hopen, hnode, hsigned⟩
  exact ⟨original, file, content, hrestore, hopen, (hquiet.tmp_kept hg).trans hnode, hsigned⟩

/-- A run that ends before it opens the temp file leaves it alone. -/
theorem residue_untouched {abort : Abort} (hplain : abort ∉ tempTouched)
    (h : f env.tmp = start env.tmp) : Residue env start abort f where
  untouched := fun _ => h
  removed := fun _ hmem =>
    (hplain (by simp only [tempTouched, List.mem_cons] at hmem ⊢; tauto)).elim
  left := fun hmem => (hplain (by simp only [tempTouched, List.mem_cons] at hmem ⊢; tauto)).elim

/-- A run that unlinks its temp file leaves none. -/
theorem residue_removed {abort : Abort} (hmem : abort ∈ [writeAbort, execAbort])
    (h : ¬env.unlinkFails → f env.tmp = none) : Residue env start abort f where
  untouched := fun hplain =>
    (hplain (by simp only [tempTouched, List.mem_cons] at hmem ⊢; tauto)).elim
  removed := fun hunlink _ => h hunlink
  left := by
    intro hleft
    rw [List.mem_cons, List.mem_singleton] at hmem
    rcases hmem with rfl | rfl
    · exact absurd hleft (by decide)
    · exact absurd hleft (by decide)

/-- A run that gives up on a finished temp file leaves it. -/
theorem residue_left {abort : Abort} (hmem : abort ∈ [chmodAbort, vectorAbort])
    (h : f env.tmp ≠ none) : Residue env start abort f where
  untouched := fun hplain =>
    (hplain (by simp only [tempTouched, List.mem_cons] at hmem ⊢; tauto)).elim
  removed := by
    intro _ hremoved
    rw [List.mem_cons, List.mem_singleton] at hmem
    rcases hmem with rfl | rfl
    · exact absurd hremoved (by decide)
    · exact absurd hremoved (by decide)
  left := fun _ => h

theorem Residue.rely {abort : Abort} {g : Files κ} (hquiet : env.Quiet) (hg : env.rely f g)
    (h : Residue env start abort f) : Residue env start abort g where
  untouched := fun hplain => (hquiet.tmp_kept hg).trans (h.untouched hplain)
  removed := fun hunlink hmem => (hquiet.tmp_kept hg).trans (h.removed hunlink hmem)
  left := by
    intro hmem
    rw [hquiet.tmp_kept hg]
    exact h.left hmem

/-- The vector is what `execv` may be given, and it holds the name and the arguments. -/
theorem exec_legal {trailer : Cells UInt8} {id vid : Nat} {name : Bytes} (hnul : 0 ∈ name)
    (hne : vid ≠ id) (hsealed : env.Quiet → Sealed env start fuel name f) :
    let p := ((Proc.base trailer).putBytes (.block id) (name.map some)).putPointers (.block vid)
      (execSlots env (.block id))
    Disciplined env p (.execv env.tmpPath (.vector (.block vid))) ∧
      StartsOriginal env start fuel p f (.execv env.tmpPath (.vector (.block vid))) := by
  have haddr : (Addr.block id) ≠ .block vid := by
    intro h
    cases h
    exact hne rfl
  intro p
  have hname : p.mem (.block id) = some (.bytes (name.map some)) := by
    rw [Proc.putPointers_mem_of_ne _ haddr, Proc.putBytes_mem]
  have hvector : p.mem (.block vid) = some (.pointers (execSlots env (.block id))) :=
    Proc.putPointers_mem ..
  have hslot : some (Slot.block (Addr.block id)) ∈ execSlots env (.block id) :=
    block_mem_execSlots.mpr rfl
  refine ⟨⟨rfl, rfl, rfl, _, hvector, ⟨⟨_, rfl⟩, ?_⟩, ?_⟩, ?_⟩
  · intro a ha
    rw [block_mem_execSlots.mp ha]
    exact ⟨name, hname, hnul⟩
  · intro other hother
    by_cases hvid : other = vid
    · exact Or.inl (congrArg Addr.block hvid)
    · by_cases hid : other = id
      · rw [hid]
        exact Or.inr hslot
      · refine (hother ?_).elim
        rw [Proc.putPointers_mem_of_ne _ (by simpa using hvid),
          Proc.putBytes_mem_of_ne _ (by simpa using hid), Proc.base_block]
  · intro hquiet
    exact ⟨name, .block id, hsealed hquiet, hname, hvector⟩

end Ends

/-! ## Rules for the calls -/

section Rules

variable {κ α : Type} [DecidableEq κ] {env : Darwin κ α} {start : Files κ} {fuel : Nat}
  {β : Type} {Q : β → Proc κ α → Files κ → Prop} {p : Proc κ α} {f : Files κ}

/-- A call that hands nothing over and leaves the files alone. -/
theorem keeps_own {c : SysCall α} {next : Answer c → Loading α β} (hlegal : Disciplined env p c)
    (hplain : ∀ path a, c ≠ .execv path (.vector a))
    (hnext : ∀ g r p' f', Acts env p g c r p' f' →
      f' = g ∧ (env.rely f g → Keeps (loaderWorld env start fuel) Q (next r) p' f)) :
    Keeps (loaderWorld env start fuel) Q (.call c next) p f := by
  intro g hg
  refine ⟨⟨hlegal, ?_⟩, ?_⟩
  · cases c with
    | execv path args =>
        cases args with
        | literals args => exact trivial
        | vector a => exact (hplain path a rfl).elim
    | _ => exact trivial
  · intro r p' f' hacts
    rcases hnext g r p' f' hacts with ⟨rfl, hkeeps⟩
    exact (hkeeps hg).rely hg

theorem keeps_warn {message : String} {next : Unit → Loading α β}
    (h : Keeps (loaderWorld env start fuel) Q (next ()) (p.say message) f) :
    Keeps (loaderWorld env start fuel) Q (.call (.warn message) next) p f := by
  refine keeps_own ?_ (by simp) ?_
  · exact trivial
  · rintro g r p' f' ⟨rfl, rfl⟩
    exact ⟨rfl, fun _ => h⟩

theorem keeps_close {fd : Int} {next : Unit → Loading α β} (hopen : ∃ d, p.fds fd = some d)
    (h : Keeps (loaderWorld env start fuel) Q (next ()) (p.closeFd fd) f) :
    Keeps (loaderWorld env start fuel) Q (.call (.close fd) next) p f := by
  refine keeps_own ?_ (by simp) ?_
  · exact hopen
  · rintro g r p' f' ⟨rfl, rfl⟩
    exact ⟨rfl, fun _ => h⟩

theorem keeps_free {id : Nat} {next : Unit → Loading α β}
    (hlive : ∃ block, p.mem (.block id) = some block)
    (h : Keeps (loaderWorld env start fuel) Q (next ()) (p.drop (.block id)) f) :
    Keeps (loaderWorld env start fuel) Q (.call (.free (.block id)) next) p f := by
  refine keeps_own ?_ (by simp) ?_
  · exact ⟨by simp, hlive⟩
  · rintro g r p' f' ⟨rfl, rfl⟩
    exact ⟨rfl, fun _ => h⟩

theorem keeps_freeDctx {dctx : Nat} {next : Unit → Loading α β}
    (hlive : ∃ attempts, p.dctxs dctx = some attempts)
    (h : Keeps (loaderWorld env start fuel) Q (next ()) (p.freeDctx dctx) f) :
    Keeps (loaderWorld env start fuel) Q (.call (.freeDctx dctx) next) p f := by
  refine keeps_own ?_ (by simp) ?_
  · exact hlive
  · rintro g r p' f' ⟨rfl, rfl⟩
    exact ⟨rfl, fun _ => h⟩

/-- Allocation fails, or finds a block at an address of its own. -/
theorem keeps_malloc {size : Nat} {next : Option Addr → Loading α β}
    (hnull : env.mayFail → Keeps (loaderWorld env start fuel) Q (next none) p f)
    (hsome : ∀ id, p.mem (.block id) = none → Keeps (loaderWorld env start fuel) Q
      (next (some (.block id))) (p.putBytes (.block id) (fresh UInt8 size)) f) :
    Keeps (loaderWorld env start fuel) Q (.call (.malloc size) next) p f := by
  refine keeps_own ?_ (by simp) ?_
  · exact trivial
  · rintro g r p' f' ⟨rfl, ⟨rfl, rfl, hfail⟩ | ⟨id, rfl, hid, rfl⟩⟩
    · exact ⟨rfl, fun _ => hnull hfail⟩
    · exact ⟨rfl, fun _ => hsome id hid⟩

theorem keeps_mallocPointers {size : Nat} {next : Option Addr → Loading α β}
    (hnull : env.mayFail → Keeps (loaderWorld env start fuel) Q (next none) p f)
    (hsome : ∀ id, p.mem (.block id) = none → Keeps (loaderWorld env start fuel) Q
      (next (some (.block id))) (p.putPointers (.block id) (fresh _ (size / pointerSize))) f) :
    Keeps (loaderWorld env start fuel) Q (.call (.mallocPointers size) next) p f := by
  refine keeps_own ?_ (by simp) ?_
  · exact trivial
  · rintro g r p' f' ⟨rfl, ⟨rfl, rfl, hfail⟩ | ⟨id, rfl, hid, rfl⟩⟩
    · exact ⟨rfl, fun _ => hnull hfail⟩
    · exact ⟨rfl, fun _ => hsome id hid⟩

theorem keeps_createDctx {next : Option Nat → Loading α β}
    (hnull : env.mayFail → Keeps (loaderWorld env start fuel) Q (next none) p f)
    (hsome : ∀ dctx, p.dctxs dctx = none →
      Keeps (loaderWorld env start fuel) Q (next (some dctx)) (p.setDctx dctx 0) f) :
    Keeps (loaderWorld env start fuel) Q (.call .createDctx next) p f := by
  refine keeps_own ?_ (by simp) ?_
  · exact trivial
  · rintro g r p' f' ⟨rfl, ⟨rfl, rfl, hfail⟩ | ⟨dctx, rfl, hdctx, rfl⟩⟩
    · exact ⟨rfl, fun _ => hnull hfail⟩
    · exact ⟨rfl, fun _ => hsome dctx hdctx⟩

/-- What is loaded from a written front is what was written to it. -/
theorem keeps_load {a : Addr} {values : Bytes} {rest : Cells UInt8} {offset count : Nat}
    {next : Bytes → Loading α β} (hmem : p.mem a = some (.bytes (values.map some ++ rest)))
    (hfits : offset + count ≤ values.length)
    (h : Keeps (loaderWorld env start fuel) Q (next ((values.drop offset).take count)) p f) :
    Keeps (loaderWorld env start fuel) Q (.call (.load a offset count) next) p f := by
  refine keeps_own ?_ (by simp) ?_
  · exact ⟨_, hmem, written_part values rest hfits⟩
  · rintro g r p' f' ⟨rfl, rfl, cells, hcells, hlen, hholds⟩
    rw [hmem] at hcells
    cases hcells
    have hvalue : r = (values.drop offset).take count := by
      apply hholds.unique (holds_part values rest hfits)
      rw [hlen, List.length_take, List.length_drop]
      omega
    rw [hvalue]
    exact ⟨rfl, fun _ => h⟩

theorem keeps_store {a : Addr} {cells : Cells UInt8} {offset : Nat} {bytes : Bytes}
    {next : Unit → Loading α β} (hmem : p.mem a = some (.bytes cells))
    (hfits : offset + bytes.length ≤ cells.length)
    (h : Keeps (loaderWorld env start fuel) Q (next ())
      (p.putBytes a (overwrite cells offset bytes)) f) :
    Keeps (loaderWorld env start fuel) Q (.call (.store a offset bytes) next) p f := by
  refine keeps_own ?_ (by simp) ?_
  · exact ⟨cells, hmem, hfits⟩
  · rintro g r p' f' ⟨rfl, cells', hcells, rfl⟩
    rw [hmem] at hcells
    cases hcells
    exact ⟨rfl, fun _ => h⟩

theorem keeps_storePointer {a : Addr} {slots : Cells (Slot α)} {i : Nat} {slot : Slot α}
    {next : Unit → Loading α β} (hmem : p.mem a = some (.pointers slots))
    (hfits : i < slots.length)
    (h : Keeps (loaderWorld env start fuel) Q (next ())
      (p.putPointers a (overwrite slots i [slot])) f) :
    Keeps (loaderWorld env start fuel) Q (.call (.storePointer a i slot) next) p f := by
  refine keeps_own ?_ (by simp) ?_
  · exact ⟨slots, hmem, hfits⟩
  · rintro g r p' f' ⟨rfl, slots', hslots, rfl⟩
    rw [hmem] at hslots
    cases hslots
    exact ⟨rfl, fun _ => h⟩

theorem keeps_loadArg {i : Nat} {next : Pointer α → Loading α β}
    (hfits : i ≤ env.args.argv.length)
    (h : Keeps (loaderWorld env start fuel) Q (next (env.argvAt i)) p f) :
    Keeps (loaderWorld env start fuel) Q (.call (.loadArg i) next) p f := by
  refine keeps_own ?_ (by simp) ?_
  · exact hfits
  · rintro g r p' f' ⟨rfl, rfl, rfl⟩
    exact ⟨rfl, fun _ => h⟩

theorem keeps_getpid {next : Int32 → Loading α β}
    (h : Keeps (loaderWorld env start fuel) Q (next env.pid) p f) :
    Keeps (loaderWorld env start fuel) Q (.call .getpid next) p f := by
  refine keeps_own ?_ (by simp) ?_
  · exact trivial
  · rintro g r p' f' ⟨rfl, rfl, rfl⟩
    exact ⟨rfl, fun _ => h⟩

theorem keeps_dup2 {fd target : Int} {next : Unit → Loading α β}
    (hopen : ∃ d, p.fds fd = some d)
    (h : Keeps (loaderWorld env start fuel) Q (next ()) p f) :
    Keeps (loaderWorld env start fuel) Q (.call (.dup2 fd target) next) p f := by
  refine keeps_own ?_ (by simp) ?_
  · exact hopen
  · rintro g r p' f' ⟨rfl, rfl⟩
    exact ⟨rfl, fun _ => h⟩

theorem keeps_fork {next : Int → Loading α β} (hnone : p.fds = fun _ => none)
    (h : ∀ child : Int, (child = 0 → env.forked) →
      Keeps (loaderWorld env start fuel) Q (next child) p f) :
    Keeps (loaderWorld env start fuel) Q (.call .fork next) p f := by
  refine keeps_own ?_ (by simp) ?_
  · exact hnone
  · rintro g r p' f' ⟨rfl, rfl, -, hchild⟩
    exact ⟨rfl, fun _ => h r hchild⟩

/-- No one changes the file at a place. -/
def Stays (env : Darwin κ α) (f : Files κ) (place : κ) (node : TempNode) : Prop :=
  ∀ g, env.rely f g → g place = some node

/-- `lseek` to an offset fails, or the descriptor stands there. -/
theorem keeps_seekSet {fd : Int} {offset : Nat} {next : Int → Loading α β} {d : Desc κ}
    (hfd : p.fds fd = some d)
    (hfails : ∀ r : Int, r < 0 → env.mayFail → Keeps (loaderWorld env start fuel) Q (next r) p f)
    (hseeks : Keeps (loaderWorld env start fuel) Q (next offset)
      (p.setFd fd { d with offset := offset }) f) :
    Keeps (loaderWorld env start fuel) Q (.call (.lseek fd offset .seekSet) next) p f := by
  refine keeps_own ?_ (by simp) ?_
  · exact ⟨d, hfd⟩
  · rintro g r p' f' ⟨rfl, ⟨hneg, rfl, hfail⟩ | ⟨d', pos, hd', rfl, rfl, rfl⟩⟩
    · exact ⟨rfl, fun _ => hfails r hneg hfail⟩
    · rw [hfd] at hd'
      cases hd'
      exact ⟨rfl, fun _ => hseeks⟩

/-- `lseek` to the end of the file fails, or returns its size. -/
theorem keeps_seekEnd {fd : Int} {next : Int → Loading α β} {d : Desc κ}
    (hfd : p.fds fd = some d)
    (hfails : ∀ r : Int, r < 0 → env.mayFail → Keeps (loaderWorld env start fuel) Q (next r) p f)
    (hseeks : ∀ size : Nat, (∀ node, Stays env f d.place node → size = node.content.length) →
      Keeps (loaderWorld env start fuel) Q (next size) (p.setFd fd { d with offset := size }) f) :
    Keeps (loaderWorld env start fuel) Q (.call (.lseek fd 0 .seekEnd) next) p f := by
  refine keeps_own ?_ (by simp) ?_
  · exact ⟨d, hfd⟩
  · rintro g r p' f' ⟨rfl, ⟨hneg, rfl, hfail⟩ | ⟨d', pos, hd', rfl, rfl, hpos⟩⟩
    · exact ⟨rfl, fun _ => hfails r hneg hfail⟩
    · rw [hfd] at hd'
      cases hd'
      exact ⟨rfl, fun hg => hseeks pos fun node hnode => hpos node (hnode _ hg)⟩

/-- `read` fails, or moves on by the bytes it returns, which follow in the file. -/
theorem keeps_read {fd : Int} {buf : Addr} {offset count : Nat} {next : Int → Loading α β}
    {d : Desc κ} {cells : Cells UInt8} (hfd : p.fds fd = some d)
    (hmem : p.mem buf = some (.bytes cells)) (hfits : offset + count ≤ cells.length)
    (hfails : ∀ r : Int, r < 0 → env.mayFail →
      Keeps (loaderWorld env start fuel) Q (next r) p f)
    (hreads : ∀ bytes : Bytes, bytes.length ≤ count →
      (∀ node, Stays env f d.place node → bytes <+: node.content.drop d.offset ∧
        (bytes = [] → count = 0 ∨ node.content.length ≤ d.offset)) →
      Keeps (loaderWorld env start fuel) Q (next bytes.length)
        ((p.putBytes buf (overwrite cells offset bytes)).setFd fd
          { d with offset := d.offset + bytes.length }) f) :
    Keeps (loaderWorld env start fuel) Q (.call (.read fd buf offset count) next) p f := by
  refine keeps_own ?_ (by simp) ?_
  · exact ⟨⟨d, hfd⟩, cells, hmem, hfits⟩
  · rintro g r p' f' ⟨rfl, ⟨hneg, rfl, hfail⟩ | ⟨d', cells', bytes, hd', hcells, rfl, hlen, hbytes,
      hend, rfl⟩⟩
    · exact ⟨rfl, fun _ => hfails r hneg hfail⟩
    · rw [hfd] at hd'
      rw [hmem] at hcells
      cases hd'
      cases hcells
      refine ⟨rfl, fun hg => hreads bytes hlen ?_⟩
      intro node hnode
      refine ⟨hbytes node (hnode _ hg), ?_⟩
      intro hnil
      rcases hend hnil with hcount | hatEnd
      · exact Or.inl hcount
      · exact Or.inr (hatEnd node (hnode _ hg))

/-- `write` fails, or the file moves on by the bytes it takes. -/
theorem keeps_write {fd : Int} {buf : Addr} {offset count : Nat} {next : Int → Loading α β}
    {d : Desc κ} {values : Bytes} {rest : Cells UInt8} (hfd : p.fds fd = some d)
    (hplace : d.place = env.tmp) (hmem : p.mem buf = some (.bytes (values.map some ++ rest)))
    (hpos : 0 < count) (hfits : offset + count ≤ values.length)
    (hfails : ∀ r : Int, r ≤ 0 → env.mayFail →
      Keeps (loaderWorld env start fuel) Q (next r) p f)
    (hwrites : ∀ g n, env.rely f g → 0 < n → n ≤ count →
      Keeps (loaderWorld env start fuel) Q (next (n : Nat))
        (p.setFd fd { d with offset := d.offset + n })
        (written g d ((values.drop offset).take n))) :
    Keeps (loaderWorld env start fuel) Q (.call (.write fd buf offset count) next) p f := by
  intro g hg
  refine ⟨⟨⟨⟨d, hfd, hplace⟩, hpos, _, hmem, written_part values rest hfits⟩, trivial⟩, ?_⟩
  rintro r p' f' (⟨hneg, rfl, rfl, hfail⟩ | ⟨d', cells, chunk, hd', hcells, rfl, hsome, hlen,
    hholds, rfl, rfl⟩)
  · exact (hfails r hneg hfail).rely hg
  · rw [hfd] at hd'
    rw [hmem] at hcells
    cases hd'
    cases hcells
    have hchunk : chunk = (values.drop offset).take chunk.length := by
      apply hholds.unique (holds_part values rest (by omega))
      rw [List.length_take, List.length_drop]
      omega
    have hkeeps := hwrites g chunk.length hg hsome hlen
    rw [← hchunk] at hkeeps
    exact hkeeps

/-- What a written front declares is asked of what was written to it. -/
theorem keeps_frameContentSize {src : Addr} {values : Bytes} {rest : Cells UInt8}
    {offset count : Nat} {next : UInt64 → Loading α β}
    (hmem : p.mem src = some (.bytes (values.map some ++ rest)))
    (hfits : offset + count ≤ values.length)
    (h : Keeps (loaderWorld env start fuel) Q
      (next (env.frameContentSize ((values.drop offset).take count))) p f) :
    Keeps (loaderWorld env start fuel) Q (.call (.frameContentSize src offset count) next) p f := by
  refine keeps_own ?_ (by simp) ?_
  · exact ⟨_, hmem, written_part values rest hfits⟩
  · rintro g r p' f' ⟨rfl, rfl, cells, payload, hcells, hlen, hholds, rfl⟩
    rw [hmem] at hcells
    cases hcells
    have hvalue : payload = (values.drop offset).take count := by
      apply hholds.unique (holds_part values rest hfits)
      rw [hlen, List.length_take, List.length_drop]
      omega
    rw [hvalue]
    exact ⟨rfl, fun _ => h⟩

/-- A decompression succeeds with the output at the front of its block, or fails. -/
theorem keeps_decompressDctx {dctx attempt capacity offset count : Nat} {dst src : Addr}
    {old rest : Cells UInt8} {values : Bytes} {next : Except Nat Nat → Loading α β}
    (hdctx : p.dctxs dctx = some attempt) (hdst : p.mem dst = some (.bytes old))
    (hcapacity : old.length = capacity) (hne : dst ≠ src)
    (hsrc : p.mem src = some (.bytes (values.map some ++ rest)))
    (hfits : offset + count ≤ values.length)
    (hok : ∀ out after,
      env.decompress attempt capacity ((values.drop offset).take count) = .ok out →
      Keeps (loaderWorld env start fuel) Q (next (.ok out.length))
        ((p.putBytes dst (out.map some ++ after)).setDctx dctx (attempt + 1)) f)
    (herror : ∀ e after, env.decompress attempt capacity ((values.drop offset).take count) =
        .error e →
      Keeps (loaderWorld env start fuel) Q (next (.error e))
        ((p.putBytes dst after).setDctx dctx (attempt + 1)) f) :
    Keeps (loaderWorld env start fuel) Q
      (.call (.decompressDctx dctx dst capacity src offset count) next) p f := by
  refine keeps_own ?_ (by simp) ?_
  · exact ⟨⟨attempt, hdctx⟩, hne, ⟨old, hdst, hcapacity⟩, _, hsrc,
      written_part values rest hfits⟩
  · rintro g r p' f' ⟨rfl, attempt', old', cells, payload, after, hdctx', hdst', hsrc', hlen,
      hholds, hresult⟩
    rw [hdctx] at hdctx'
    rw [hsrc] at hsrc'
    cases hdctx'
    cases hsrc'
    have hvalue : payload = (values.drop offset).take count := by
      apply hholds.unique (holds_part values rest hfits)
      rw [hlen, List.length_take, List.length_drop]
      omega
    rw [hvalue] at hresult
    refine ⟨rfl, fun _ => ?_⟩
    split at hresult
    · rename_i out hout
      rcases hresult with ⟨rfl, -, rfl⟩
      exact hok out after hout
    · rename_i e he
      rcases hresult with ⟨rfl, -, rfl⟩
      exact herror e after he

/-- `unlink` removes the temp file, or fails. -/
theorem keeps_unlink {next : Unit → Loading α β}
    (hfails : env.unlinkFails → Keeps (loaderWorld env start fuel) Q (next ()) p f)
    (hremoves : ∀ g, env.rely f g →
      Keeps (loaderWorld env start fuel) Q (next ()) p (Function.update g env.tmp none)) :
    Keeps (loaderWorld env start fuel) Q (.call (.unlink env.tmpPath) next) p f := by
  intro g hg
  refine ⟨⟨env.placeOf_tmpPath, trivial⟩, ?_⟩
  rintro r p' f' ⟨rfl, ⟨rfl, hfail⟩ | ⟨place, hplace, rfl⟩⟩
  · rw [env.placeOf_tmpPath] at hfail
    exact (hfails (hfail.resolve_right (by simp))).rely hg
  · rw [env.placeOf_tmpPath] at hplace
    cases hplace
    exact hremoves g hg

/-- `chmod` fails, or sets the mode of the temp file. -/
theorem keeps_chmod {mode : Nat} {next : Int → Loading α β}
    (hfails : ∀ g (r : Int), env.rely f g → r ≠ 0 → (env.mayFail ∨ g env.tmp = none) →
      Keeps (loaderWorld env start fuel) Q (next r) p g)
    (hseals : ∀ g, env.rely f g →
      Keeps (loaderWorld env start fuel) Q (next (0 : Int)) p (sealed g env.tmp mode)) :
    Keeps (loaderWorld env start fuel) Q (.call (.chmod env.tmpPath mode) next) p f := by
  intro g hg
  refine ⟨⟨env.placeOf_tmpPath, trivial⟩, ?_⟩
  rintro r p' f' ⟨rfl, ⟨hr, rfl, hfail⟩ | ⟨rfl, place, hplace, rfl⟩⟩
  · exact hfails _ r hg hr (hfail.imp_right fun hnone => hnone _ env.placeOf_tmpPath)
  · rw [env.placeOf_tmpPath] at hplace
    cases hplace
    exact hseals g hg

/-- The child leaves the temp file alone, or has it signed. -/
theorem keeps_waitpid {child : Int} {next : Unit → Loading α β}
    (halone : Keeps (loaderWorld env start fuel) Q (next ()) p f)
    (hsigns : ∀ g node content, env.rely f g → g env.tmp = some node →
      env.codesign node.content content → Keeps (loaderWorld env start fuel) Q (next ()) p
        (Function.update g env.tmp (some { node with content := content }))) :
    Keeps (loaderWorld env start fuel) Q (.call (.waitpid child) next) p f := by
  intro g hg
  refine ⟨⟨trivial, trivial⟩, ?_⟩
  rintro r p' f' ⟨rfl, rfl | ⟨node, content, hnode, hsigned, rfl⟩⟩
  · exact halone.rely hg
  · exact hsigns g node content hg hnode hsigned

/-- `execv` comes back only when it failed. -/
theorem keeps_execv {path : Path} {args : ExecArgs} {next : Unit → Loading α β}
    (hlegal : ∀ g, env.rely f g → Disciplined env p (.execv path args) ∧
      StartsOriginal env start fuel p g (.execv path args))
    (hfails : env.mayFail → Keeps (loaderWorld env start fuel) Q (next ()) p f) :
    Keeps (loaderWorld env start fuel) Q (.call (.execv path args) next) p f := by
  intro g hg
  refine ⟨hlegal g hg, ?_⟩
  rintro r p' f' ⟨rfl, rfl, hfail⟩
  exact (hfails hfail).rely hg

/-- Such an `open` fails, or leads to a file that is there. -/
theorem keeps_open {path : PathArg α} {flags mode : Nat} {next : Int → Loading α β}
    (huntouching : Untouching env path flags)
    (hfails : ∀ g (fd : Int), env.rely f g → fd < 0 →
      (env.mayFail ∨ ∀ place, env.argumentPlace path = some place →
        ∃ errno, darwinOpen env.root flags mode (g place) = .error errno) →
      Keeps (loaderWorld env start fuel) Q (next fd) p g)
    (hopens : ∀ g (fd : Int) place node, env.rely f g → 0 ≤ fd → p.fds fd = none →
      env.argumentPlace path = some place → g place = some node →
      Keeps (loaderWorld env start fuel) Q (next fd) (p.setFd fd ⟨place, 0⟩) g) :
    Keeps (loaderWorld env start fuel) Q (.call (.openPath path flags mode) next) p f := by
  intro g hg
  refine ⟨⟨Or.inl huntouching, trivial⟩, ?_⟩
  rintro r p' f' (⟨hneg, rfl, rfl, hwhy⟩ | ⟨place, node, hpos, hfree, hplace, hopen, rfl, rfl⟩)
  · exact hfails _ r hg hneg hwhy
  · have hnode := darwinOpen_keeps huntouching hopen
    rw [← hnode, Function.update_eq_self]
    exact hopens g r place node hg hpos hfree hplace hnode

/-- `open` of the temp file fails, or what Darwin leaves of an old one stands there. -/
theorem keeps_openTemp {next : Int → Loading α β}
    (hfails : ∀ g (fd : Int), env.rely f g → fd < 0 →
      (env.mayFail ∨ ∃ errno, darwinOpen env.root openFlags 0o600 (g env.tmp) = .error errno) →
      Keeps (loaderWorld env start fuel) Q (next fd) p g)
    (hopens : ∀ g (fd : Int) file, env.rely f g → 0 ≤ fd → p.fds fd = none →
      darwinOpen env.root openFlags 0o600 (g env.tmp) = .ok file →
      Keeps (loaderWorld env start fuel) Q (next fd) (p.setFd fd ⟨env.tmp, 0⟩)
        (Function.update g env.tmp (some file))) :
    Keeps (loaderWorld env start fuel) Q
      (.call (.openPath (.buffer env.tmpPath) openFlags 0o600) next) p f := by
  intro g hg
  have htmp : env.argumentPlace (.buffer env.tmpPath) = some env.tmp := env.placeOf_tmpPath
  refine ⟨⟨Or.inr htmp, trivial⟩, ?_⟩
  rintro r p' f' (⟨hneg, rfl, rfl, hwhy⟩ | ⟨place, file, hpos, hfree, hplace, hopen, rfl, rfl⟩)
  · exact hfails _ r hg hneg (hwhy.imp_right fun herror => herror _ htmp)
  · rw [htmp] at hplace
    cases hplace
    exact hopens g r file hg hpos hfree hopen

/-- Nothing comes after `_exit`. -/
theorem keeps_exit (hforked : env.forked) :
    Keeps (loaderWorld env start fuel) Q (.call (.exit 127) Empty.elim) p f := by
  intro g _
  exact ⟨⟨⟨hforked, rfl⟩, trivial⟩, fun r => r.elim⟩

/-- The end of a run that has freed everything. -/
theorem keeps_clean {abort : Abort} {trailer : Cells UInt8} (hleak : abort ∉ nameLeaks)
    (hcause : env.Quiet → ¬env.mayFail → Cause env start fuel abort)
    (hresidue : env.Quiet → Residue env start abort f) :
    Keeps (loaderWorld env start fuel) (Stops env start fuel) (.done (some abort.exitCode))
      ((Proc.base trailer).say abort.message) f := by
  intro g hg
  refine ⟨abort, rfl, ?_⟩
  exact {
    said := rfl
    fds := rfl
    dctxs := rfl
    leaks := by
      rw [Leaks, if_neg hleak]
      intro id
      rw [Proc.say_mem, Proc.base_block]
    cause := hcause
    residue := fun hquiet => (hresidue hquiet).rely hquiet hg }

/-- The end of a run that leaves the copy of the name. -/
theorem keeps_leaking {abort : Abort} {trailer cells : Cells UInt8} {id : Nat}
    (hleak : abort ∈ nameLeaks)
    (hcause : env.Quiet → ¬env.mayFail → Cause env start fuel abort)
    (hresidue : env.Quiet → Residue env start abort f) :
    Keeps (loaderWorld env start fuel) (Stops env start fuel) (.done (some abort.exitCode))
      (((Proc.base trailer).putBytes (.block id) cells).say abort.message) f := by
  intro g hg
  refine ⟨abort, rfl, ?_⟩
  exact {
    said := rfl
    fds := rfl
    dctxs := rfl
    leaks := by
      rw [Leaks, if_pos hleak]
      refine ⟨id, cells, Proc.putBytes_mem .., ?_⟩
      intro other hother
      exact (Proc.putBytes_mem_of_ne cells (by simpa using hother)).trans (Proc.base_block ..)
    cause := hcause
    residue := fun hquiet => (hresidue hquiet).rely hquiet hg }

end Rules

end Loader
end Upxz
