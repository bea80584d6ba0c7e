import Upxz.Machine.Loop
import Upxz.Loader.Parse
import Upxz.Loader.TempPath

/-!
# Loader - The exec vector

Step 9 of `loader/src/main.rs`.  The loader allocates a vector of pointers, stores the
copy of the stored name, the arguments it was given itself and a null pointer through
raw pointers, and hands the vector to `execv`.  In the model a store outside the vector
and a read outside `argv` are panics, and a slot that was not stored stays visibly empty.

Main results:

- Theorem `fill_turns`: the loop stores the arguments one behind the other, each in the
  first free slot.
- Theorem `execArgv_exact`: the vector holds the name, the arguments but the first, and
  a null pointer, and nothing else.
- Theorem `execv_receives`: the restored program is started from the temp path with the
  stored name and these arguments.
- Theorem `loaderImage_execs`: so a packed file starts its original under its own name.
-/

namespace Upxz
namespace Loader

open Machine Format

/-! ## Building the vector -/

/-- Size of a pointer. -/
def pointerSize : Nat := 8

/-- What the loader is called with: `argc` counts the pointers of `argv`. -/
structure MainArgs (α : Type) where
  argc : Int32
  argv : List (Pointer α)
  length_eq : (argv.length : Int) = argc.toInt

/-- `(argc - 1).max(0) as usize`; the subtraction cannot overflow, for `argc` is not
negative. -/
def userArgc {α : Type} (args : MainArgs α) : Nat :=
  (max (args.argc.toInt - 1) 0).toNat

/-- The variables of the loop over the arguments. -/
structure Fill (α : Type) where
  i : Nat
  slots : Slots α
deriving DecidableEq, Repr

section Build

variable {α : Type}

/-- The loop's test, and its body if that holds. -/
def fillStep (mode : Overflow) (argv : List (Pointer α)) (userArgc : Nat) (f : Fill α) :
    Except Panic (Option (Fill α)) := do
  let passed ← subUsize mode f.i 1
  if passed < userArgc then
    let p ← index argv f.i
    let slots ← store f.slots f.i (some p)
    let i ← addUsize mode f.i 1
    return some ⟨i, slots⟩
  else
    return none

/-- One turn of the loop. -/
def fillTurn (mode : Overflow) (argv : List (Pointer α)) (userArgc : Nat) (f : Fill α) :
    Turn (Fill α) (Except Panic (Slots α)) :=
  match fillStep mode argv userArgc f with
  | .error why => .leave (.error why)
  | .ok none => .leave (.ok f.slots)
  | .ok (some f') => .again f'

/-- Allocate the vector and fill it.  The loop is granted `user_argc + 1` turns. -/
def buildExecArgv (mode : Overflow) (malloc : Nat → Bool) (nameCString : Bytes)
    (args : MainArgs α) : Exec Abort (Slots α) := do
  let argvTotal ← liftPanic (addUsize mode (userArgc args) 2)
  let argvBytes := argvTotal * pointerSize
  ensure (malloc argvBytes = true)
    ⟨"upxz-loader: out of memory building exec argv\n", exitIo⟩
  let fresh : Slots α := List.replicate (argvBytes / pointerSize) none
  let slots ← liftPanic (store fresh 0 (some (.own nameCString)))
  match turns (fillTurn mode args.argv (userArgc args)) (userArgc args + 1) ⟨1, slots⟩ with
  | none => .error .timeout
  | some stored => do
      let slots ← liftPanic stored
      let last ← liftPanic (addUsize mode (userArgc args) 1)
      liftPanic (store slots last (some .null))

/-- The call of `execv`. -/
structure ExecvCall (α : Type) where
  path : Path
  argv : Slots α
deriving DecidableEq, Repr

/-- Step 9, up to `execv`. -/
def execRestored (mode : Overflow) (malloc : Nat → Bool) (pid : Int32) (nameCString : Bytes)
    (args : MainArgs α) : Exec Abort (ExecvCall α) := do
  let argv ← buildExecArgv mode malloc nameCString args
  return ⟨tmpPath (pidAsU64 pid).toNat (pidAsU64 pid).toNat_lt, argv⟩

/-! ## The loop -/

theorem userArgc_eq (args : MainArgs α) : userArgc args = args.argv.length - 1 := by
  have hlength := args.length_eq
  unfold userArgc
  omega

theorem argv_length_lt (args : MainArgs α) : args.argv.length < 2 ^ 31 := by
  have hlength := args.length_eq
  have hlt := args.argc.toInt_lt
  omega

/-- A turn with an argument left stores it in the first free slot. -/
theorem fillTurn_again (mode : Overflow) {argv stored : List (Pointer α)} {p : Pointer α}
    {userArgc : Nat} (k : Nat) (hpos : 1 ≤ stored.length) (hmore : stored.length - 1 < userArgc)
    (hp : argv[stored.length]? = some p) (hsize : stored.length + 1 < usizeValues) :
    fillTurn mode argv userArgc ⟨stored.length, filled stored (k + 1)⟩ =
      .again ⟨stored.length + 1, filled (stored ++ [p]) k⟩ := by
  have hstep : fillStep mode argv userArgc ⟨stored.length, filled stored (k + 1)⟩ =
      .ok (some ⟨stored.length + 1, filled (stored ++ [p]) k⟩) := by
    unfold fillStep
    rw [subUsize_ok hpos, ok_bind, if_pos hmore, index_ok hp, ok_bind, store_filled, ok_bind,
      addUsize_ok hsize]
    rfl
  rw [fillTurn, hstep]

/-- Without an argument left the loop is over. -/
theorem fillTurn_leave (mode : Overflow) {argv : List (Pointer α)} {userArgc : Nat} {f : Fill α}
    (hpos : 1 ≤ f.i) (hdone : ¬f.i - 1 < userArgc) :
    fillTurn mode argv userArgc f = .leave (.ok f.slots) := by
  have hstep : fillStep mode argv userArgc f = .ok none := by
    unfold fillStep
    rw [subUsize_ok hpos, ok_bind, if_neg hdone]
    rfl
  rw [fillTurn, hstep]

/-- From any index on, the loop stores the arguments that are left one behind the other,
in one turn each. -/
theorem fill_turns (mode : Overflow) {argv : List (Pointer α)} (stored left : List (Pointer α))
    (k : Nat) (hpos : 1 ≤ stored.length) (hleft : argv.drop stored.length = left)
    (hsize : stored.length + left.length < usizeValues) :
    turns (fillTurn mode argv (argv.length - 1)) (left.length + 1)
        ⟨stored.length, filled stored (left.length + k)⟩ =
      some (.ok (filled (stored ++ left) k)) := by
  induction left generalizing stored with
  | nil =>
      have hall : argv.length ≤ stored.length := List.drop_eq_nil_iff.mp hleft
      have hdone : ¬stored.length - 1 < argv.length - 1 := by omega
      rw [turns, fillTurn_leave mode hpos hdone, List.append_nil, List.length_nil, Nat.zero_add]
  | cons p left ih =>
      have hlen := congrArg List.length hleft
      rw [List.length_drop, List.length_cons] at hlen
      have hp : argv[stored.length]? = some p := by
        rw [← List.head?_drop, hleft]
        rfl
      have hmore : stored.length - 1 < argv.length - 1 := by omega
      have hstep : stored.length + 1 < usizeValues := by
        rw [List.length_cons] at hsize
        omega
      have hconcat : (stored ++ [p]).length = stored.length + 1 := by
        rw [List.length_append, List.length_singleton]
      have hnext : argv.drop (stored ++ [p]).length = left := by
        rw [hconcat, ← List.drop_drop, hleft]
        rfl
      have hbound : (stored ++ [p]).length + left.length < usizeValues := by
        rw [List.length_cons] at hsize
        omega
      have hrest := ih (stored ++ [p]) (by omega) hnext hbound
      rw [hconcat, List.append_assoc, List.singleton_append] at hrest
      rw [List.length_cons, turns, Nat.add_right_comm left.length 1 k,
        fillTurn_again mode (left.length + k) hpos hmore hp hstep]
      exact hrest

/-! ## The vector -/

/-- What the vector is for: the copy of the name, then the arguments but the first. -/
def execPointers (nameCString : Bytes) (args : MainArgs α) : List (Pointer α) :=
  .own nameCString :: args.argv.drop 1

theorem execPointers_length (nameCString : Bytes) (args : MainArgs α) :
    (execPointers nameCString args).length = userArgc args + 1 := by
  rw [execPointers, List.length_cons, List.length_drop, userArgc_eq]

/-- The vector holds these pointers and a null pointer, and every slot is stored. -/
theorem buildExecArgv_ok (mode : Overflow) {malloc : Nat → Bool} (nameCString : Bytes)
    (args : MainArgs α) (hmalloc : malloc ((userArgc args + 2) * pointerSize) = true) :
    buildExecArgv mode malloc nameCString args =
      .ok ((execPointers nameCString args ++ [Pointer.null]).map some) := by
  have hlt := argv_length_lt args
  have huser := userArgc_eq args
  have htotal : userArgc args + 2 < usizeValues := by
    unfold usizeValues
    omega
  have hlast : userArgc args + 1 < usizeValues := Nat.lt_of_succ_lt htotal
  have hslots : (userArgc args + 2) * pointerSize / pointerSize = userArgc args + 2 :=
    Nat.mul_div_cancel _ (by decide)
  have hdrop : (args.argv.drop 1).length = userArgc args := by
    rw [List.length_drop, huser]
  have hfirst : store (List.replicate (userArgc args + 2) none : Slots α) 0
      (some (.own nameCString)) = .ok (filled [.own nameCString] (userArgc args + 1)) :=
    store_filled [] (userArgc args + 1) (.own nameCString)
  have hloop : turns (fillTurn mode args.argv (userArgc args)) (userArgc args + 1)
      ⟨1, filled [.own nameCString] (userArgc args + 1)⟩ =
        some (.ok (filled (execPointers nameCString args) 1)) := by
    have hturns := fill_turns mode [.own nameCString] (args.argv.drop 1) 1
      (Nat.le_refl 1) rfl (by rw [hdrop, List.length_singleton, Nat.add_comm]; exact hlast)
    rwa [hdrop, ← huser] at hturns
  have hend : store (filled (execPointers nameCString args) 1) (userArgc args + 1) (some .null) =
      .ok (filled (execPointers nameCString args ++ [.null]) 0) := by
    have hstore := store_filled (execPointers nameCString args) 0 .null
    rwa [execPointers_length] at hstore
  unfold buildExecArgv
  rw [addUsize_ok htotal, liftPanic_ok, ok_bind]
  dsimp only
  rw [ensure_of _ hmalloc, ok_bind, hslots, hfirst, liftPanic_ok, ok_bind, hloop]
  dsimp only
  rw [liftPanic_ok, ok_bind, addUsize_ok hlast, liftPanic_ok, ok_bind, hend, liftPanic_ok, filled,
    List.replicate_zero, List.append_nil]

/-- The stored name in an app segment. -/
def storedName (appBuf : Bytes) (nameLen : Nat) : Bytes :=
  (appBuf.drop headerFixed).take nameLen

/-- For every stored name without a NUL, every argument vector and every build: whatever
the name buffer held, the copy in it is the name as a C string; the allocation has
`user_argc + 2` slots, and each of them is stored, the copy first, then the arguments but
the first in order, then a null pointer.  Nothing is read or stored out of bounds. -/
theorem execArgv_exact (mode : Overflow) (malloc : Nat → Bool) (args : MainArgs α)
    (appBuf : Bytes) (nameLen : Nat) (hfits : headerFixed + nameLen ≤ appBuf.length)
    (hnul : 0 ∉ storedName appBuf nameLen)
    (hmalloc : malloc ((userArgc args + 2) * pointerSize) = true) :
    (∀ buf, buf.length = nameLen + 1 →
      copyNameInto appBuf nameLen buf = .ok (storedName appBuf nameLen ++ [0])) ∧
    readCString (storedName appBuf nameLen ++ [0]) = some (storedName appBuf nameLen) ∧
    (userArgc args + 2) * pointerSize < usizeValues ∧
    ∃ slots : Slots α,
      buildExecArgv mode malloc (storedName appBuf nameLen ++ [0]) args = .ok slots ∧
      slots.length = userArgc args + 2 ∧
      slots = ([Pointer.own (storedName appBuf nameLen ++ [0])] ++ args.argv.drop 1 ++
        [Pointer.null]).map some := by
  refine ⟨?_, readCString_concat hnul, ?_, _, buildExecArgv_ok mode _ args hmalloc, ?_, rfl⟩
  · intro buf hbuf
    exact copyNameInto_ok hfits hbuf
  · have hlt := argv_length_lt args
    rw [userArgc_eq]
    unfold pointerSize usizeValues
    omega
  · rw [List.length_map, List.length_append, execPointers_length, List.length_singleton]

/-- The restored program is started from `/tmp/upxz-app-<pid>`; its arguments are the stored
name and the loader's own, less the first. -/
theorem execv_receives (mode : Overflow) {malloc : Nat → Bool} (nameCString : Bytes)
    (args : MainArgs α) (pid : Int32) (hargs : .null ∉ args.argv)
    (hmalloc : malloc ((userArgc args + 2) * pointerSize) = true) :
    ∃ call, execRestored mode malloc pid nameCString args = .ok call ∧
      readCString call.path = some (tmpPrefix ++ decimal (pidAsU64 pid).toNat) ∧
      readVector call.argv = some (.own nameCString :: args.argv.drop 1) := by
  have hnull : .null ∉ execPointers nameCString args := by
    unfold execPointers
    rw [List.mem_cons, not_or]
    constructor
    · intro h
      cases h
    · intro hmem
      exact hargs (List.mem_of_mem_drop hmem)
  have hread := readVector_filled hnull 0
  rw [filled, List.replicate_zero, List.append_nil] at hread
  refine ⟨⟨tmpPath (pidAsU64 pid).toNat (pidAsU64 pid).toNat_lt,
    (execPointers nameCString args ++ [Pointer.null]).map some⟩, ?_,
    readCString_tmpPath (pidAsU64 pid).toNat_lt, hread⟩
  unfold execRestored
  rw [buildExecArgv_ok mode nameCString args hmalloc]
  rfl

/-- A packed file whose stored name has no NUL starts its original under that name. -/
theorem loaderImage_execs (mode : Overflow) {malloc : Nat → Bool} (args : MainArgs α)
    (pid : Int32) {loader : Bytes} {c : Container} (hloader : loader.length < 2 ^ 32)
    (happ : c.bytes.length < 2 ^ 32) (hzstd : c.codec = .zstd) (hnul : 0 ∉ c.name)
    (hargs : .null ∉ args.argv) (hmalloc : malloc ((userArgc args + 2) * pointerSize) = true) :
    ∃ app call, parseFile (loaderImage loader c.bytes) = .ok app ∧
      execRestored mode malloc pid app.nameCString args = .ok call ∧
      readCString call.path = some (tmpPrefix ++ decimal (pidAsU64 pid).toNat) ∧
      readVector call.argv = some (.own app.nameCString :: args.argv.drop 1) ∧
      readCString app.nameCString = some c.name := by
  rcases execv_receives mode (c.name ++ [0]) args pid hargs hmalloc with
    ⟨call, hcall, hpath, hargv⟩
  exact ⟨⟨c.name ++ [0], c.payload⟩, call, parseFile_loaderImage hloader happ hzstd, hcall, hpath,
    hargv, readCString_concat hnul⟩

end Build

/-- A call with one argument of the user's. -/
def oneArgument : MainArgs String where
  argc := 2
  argv := [.passed "./packed", .passed "-x"]
  length_eq := by decide

/-- A call without any argument, not even a name. -/
def noArguments : MainArgs String where
  argc := 0
  argv := []
  length_eq := by decide

/-- The vectors for the name `hi` and these two calls. -/
theorem execArgv_exact_hi :
    (∃ slots,
      buildExecArgv .checked (fun _ => true) (asBytes "hi" ++ [0]) oneArgument = .ok slots ∧
      slots.length = 3 ∧
      slots = [some (.own (asBytes "hi" ++ [0])), some (.passed "-x"), some .null]) ∧
    ∃ slots,
      buildExecArgv .checked (fun _ => true) (asBytes "hi" ++ [0]) noArguments = .ok slots ∧
      slots.length = 2 ∧
      slots = [some (.own (asBytes "hi" ++ [0])), some .null] :=
  ⟨(execArgv_exact .checked (fun _ => true) oneArgument (Header.encode ⟨"hi", .zstd⟩) 2
      (by decide) (by decide) rfl).2.2.2,
    (execArgv_exact .checked (fun _ => true) noArguments (Header.encode ⟨"hi", .zstd⟩) 2
      (by decide) (by decide) rfl).2.2.2⟩

end Loader
end Upxz
