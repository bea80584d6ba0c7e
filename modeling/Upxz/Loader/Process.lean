import Upxz.Machine.Calls
import Upxz.Machine.Heap
import Upxz.Loader.Decompress
import Upxz.Loader.TempFile
import Upxz.Loader.ExecVector

/-!
# Loader - The process, call by call

`real_main` of `loader/src/main.rs` as a program that makes system calls and library
calls, in the order of the source and with every early return, loop and clean-up.  Its
memory is not part of the program: allocating, freeing, reading and writing a block are
calls like any other.  What it computes from the bytes it has read is taken from the
models of the single steps.

Main results:

- Theorem `readTrailer_eq_checkTrailer`: steps 1 and 2 of the parser are the check of
  the trailer that the process makes.
- Theorem `outSizeOf_eq`: the first buffer size is the one of the growing loop.
-/

namespace Upxz
namespace Loader

open Machine Format

/-! ## Calls -/

/-- Where the loader's blocks are: its trailer array on the stack, or on the heap. -/
inductive Addr where
  | trailer
  | block (id : Nat)
deriving DecidableEq, Repr

/-- A slot of the exec vector: a pointer to a block, or one that `argv` held. -/
inductive Slot (α : Type) where
  | block (a : Addr)
  | given (p : Pointer α)
deriving DecidableEq, Repr

/-- The path `open` is given: a buffer of the loader's, or `argv[0]`. -/
inductive PathArg (α : Type) where
  | buffer (path : Path)
  | given (p : Pointer α)
deriving DecidableEq, Repr

/-- The arguments `execv` is given: a vector on the heap, or an array of literals. -/
inductive ExecArgs where
  | vector (a : Addr)
  | literals (args : List Bytes)
deriving DecidableEq, Repr

/-- `O_RDONLY`. -/
def oRdonly : Nat := 0

/-- The last argument of `lseek`. -/
inductive Whence where
  | seekSet
  | seekEnd
deriving DecidableEq, Repr

/-- What the loader calls, and how it uses its memory. -/
inductive SysCall (α : Type) where
  | executablePath
  | realpath (path : Path)
  | loadArg (i : Nat)
  | openPath (path : PathArg α) (flags mode : Nat)
  | lseek (fd : Int) (offset : Nat) (whence : Whence)
  | read (fd : Int) (buf : Addr) (offset count : Nat)
  | write (fd : Int) (buf : Addr) (offset count : Nat)
  | close (fd : Int)
  | unlink (path : Path)
  | chmod (path : Path) (mode : Nat)
  | malloc (size : Nat)
  | mallocPointers (size : Nat)
  | free (a : Addr)
  | load (a : Addr) (offset count : Nat)
  | store (a : Addr) (offset : Nat) (bytes : Bytes)
  | storePointer (a : Addr) (i : Nat) (p : Slot α)
  | frameContentSize (src : Addr) (offset count : Nat)
  | createDctx
  | freeDctx (dctx : Nat)
  | decompressDctx (dctx : Nat) (dst : Addr) (capacity : Nat) (src : Addr) (offset count : Nat)
  | getpid
  | fork
  | dup2 (fd target : Int)
  | waitpid (child : Int)
  | execv (path : Path) (args : ExecArgs)
  | exit (code : Nat)
  | warn (message : String)
deriving DecidableEq, Repr

/-- What a call returns.  A null pointer is `none`; `ZSTD_decompressDCtx` returns the
number of bytes it wrote, or an error; `execv` returns only when it failed, `_exit`
never. -/
abbrev Answer {α : Type} : SysCall α → Type
  | .executablePath => Option Path
  | .realpath _ => Option Path
  | .loadArg _ => Pointer α
  | .openPath _ _ _ => Int
  | .lseek _ _ _ => Int
  | .read _ _ _ _ => Int
  | .write _ _ _ _ => Int
  | .close _ => Unit
  | .unlink _ => Unit
  | .chmod _ _ => Int
  | .malloc _ => Option Addr
  | .mallocPointers _ => Option Addr
  | .free _ => Unit
  | .load _ _ _ => Bytes
  | .store _ _ _ => Unit
  | .storePointer _ _ _ => Unit
  | .frameContentSize _ _ _ => UInt64
  | .createDctx => Option Nat
  | .freeDctx _ => Unit
  | .decompressDctx _ _ _ _ _ _ => Except Nat Nat
  | .getpid => Int32
  | .fork => Int
  | .dup2 _ _ => Unit
  | .waitpid _ => Unit
  | .execv _ _ => Unit
  | .exit _ => Empty
  | .warn _ => Unit

/-- A part of the loader. -/
abbrev Loading (α β : Type) := Calls (SysCall α) Answer β

section Calls

variable {α : Type}

/-- Make one of these calls. -/
def ask (c : SysCall α) : Loading α (Answer c) :=
  Calls.make c

@[simp]
theorem ask_bind {β : Type} (c : SysCall α) (f : Answer c → Loading α β) :
    ask c >>= f = .call c f :=
  rfl

/-! ## Loops over a buffer -/

/-- `read_exact`: read until `count` bytes are there; a call that returns no byte ends it. -/
def readExactInto (fd : Int) (buf : Addr) (count off : Nat) : Loading α Bool :=
  if off < count then
    .call (.read fd buf off (count - off)) fun (n : Int) =>
      if n ≤ 0 then .done false
      else readExactInto fd buf count (off + n.toNat)
  else .done true
termination_by count - off

/-- Go to an offset and read `count` bytes from there, unless one of the two fails. -/
def seekAndRead (fd : Int) (buf : Addr) (offset count : Nat) : Loading α Bool := do
  let sought : Int ← ask (.lseek fd offset .seekSet)
  if sought < 0 then .done false else readExactInto fd buf count 0

/-- The loop of step 6: write until `got` bytes are out. -/
def writeOut (fd : Int) (buf : Addr) (got w : Nat) : Loading α Bool :=
  if w < got then
    .call (.write fd buf w (got - w)) fun (n : Int) =>
      if n ≤ 0 then .done false
      else writeOut fd buf got (w + n.toNat)
  else .done true
termination_by got - w

/-! ## Steps 7 to 9: sign, seal and start the restored binary -/

/-- `/usr/bin/codesign`, with its NUL. -/
def codesignPath : Path := asBytes "/usr/bin/codesign" ++ [0]

/-- `/dev/null`, with its NUL. -/
def devNull : Path := asBytes "/dev/null" ++ [0]

/-- The arguments of `codesign`. -/
def codesignArgs (path : Path) : List Bytes :=
  [codesignPath, asBytes "--sign" ++ [0], asBytes "-" ++ [0], asBytes "--force" ++ [0],
    asBytes "--" ++ [0], path]

/-- Let stdout and stderr go to an open file, if it is open. -/
def silence (nfd : Int) : Loading α Unit :=
  if 0 ≤ nfd then do
    ask (.dup2 nfd 1)
    ask (.dup2 nfd 2)
    ask (.close nfd)
  else .done ()

/-- The child in `codesign_adhoc`: its output goes to `/dev/null`, and `codesign` takes
over. -/
def codesignChild {β : Type} (path : Path) : Loading α β := do
  let nfd : Int ← ask (.openPath (.buffer devNull) oWronly 0)
  silence nfd
  ask (.execv codesignPath (.literals (codesignArgs path)))
  .call (.exit 127) Empty.elim

/-- `codesign_adhoc`: the parent waits for its child and does not look at its status. -/
def codesignAdhoc (path : Path) : Loading α Unit := do
  let child : Int ← ask .fork
  if child < 0 then .done ()
  else if child = 0 then codesignChild path
  else ask (.waitpid child)

/-- `EXIT_EXEC`. -/
def exitExec : Nat := 127

/-- What the loader says when `execv` comes back. -/
def execAbort : Abort where
  message := "upxz-loader: execv of restored binary failed\n"
  exitCode := exitExec

/-- What the loader says when there is no room for the exec vector. -/
def vectorAbort : Abort where
  message := "upxz-loader: out of memory building exec argv\n"
  exitCode := exitIo

/-- The loop of step 9 over `argv[1..]`. -/
def forwardArgs (vector : Addr) (userArgc i : Nat) : Loading α Unit :=
  if i - 1 < userArgc then
    .call (.loadArg i) fun p => .call (.storePointer vector i (.given p)) fun () =>
      forwardArgs vector userArgc (i + 1)
  else .done ()
termination_by userArgc + 1 - i

/-- Step 9: build the exec vector and start the restored binary. -/
def execStep (args : MainArgs α) (tmp : Path) (name : Addr) : Loading α (Option Nat) := do
  let argvBytes := (userArgc args + 2) * pointerSize
  let vector : Option Addr ← ask (.mallocPointers argvBytes)
  match vector with
  | none => do
      ask (.warn vectorAbort.message)
      ask (.free name)
      return some vectorAbort.exitCode
  | some vector => do
      ask (.storePointer vector 0 (.block name))
      forwardArgs vector (userArgc args) 1
      ask (.storePointer vector (userArgc args + 1) (.given .null))
      ask (.execv tmp (.vector vector))
      ask (.warn execAbort.message)
      ask (.unlink tmp)
      ask (.free name)
      ask (.free vector)
      return some execAbort.exitCode

/-- What the loader says when the temp file cannot be sealed. -/
def chmodAbort : Abort where
  message := "upxz-loader: chmod on restored binary failed\n"
  exitCode := exitIo

/-- Steps 7 and 8, and on. -/
def sealStep (args : MainArgs α) (tmp : Path) (name : Addr) : Loading α (Option Nat) := do
  codesignAdhoc tmp
  let sealed : Int ← ask (.chmod tmp 0o500)
  if sealed ≠ 0 then do
    ask (.warn chmodAbort.message)
    return some chmodAbort.exitCode
  else execStep args tmp name

/-! ## Step 6: the temp file -/

/-- What the loader says when the temp file cannot be written. -/
def writeAbort : Abort where
  message := "upxz-loader: write to temp file failed\n"
  exitCode := exitIo

theorem pidAsU64_toNat_lt (pid : Int32) : (pidAsU64 pid).toNat < 2 ^ 64 :=
  (pidAsU64 pid).toNat_lt

/-- Step 6, and on. -/
def tempStep (args : MainArgs α) (app name dst : Addr) (got : Nat) :
    Loading α (Option Nat) := do
  let pid : Int32 ← ask .getpid
  let tmp := tmpPath (pidAsU64 pid).toNat (pidAsU64_toNat_lt pid)
  let ofd : Int ← ask (.openPath (.buffer tmp) openFlags 0o600)
  if ofd < 0 then do
    ask (.warn tempFileAbort.message)
    ask (.free app)
    ask (.free dst)
    return some tempFileAbort.exitCode
  else do
    let written ← writeOut ofd dst got 0
    if written = false then do
      ask (.warn writeAbort.message)
      ask (.close ofd)
      ask (.unlink tmp)
      ask (.free app)
      ask (.free dst)
      ask (.free name)
      return some writeAbort.exitCode
    else do
      ask (.close ofd)
      ask (.free app)
      ask (.free dst)
      sealStep args tmp name

/-! ## Step 5: decompress -/

/-- The first size of the output buffer, from the size the frame declares. -/
def outSizeOf (declared : UInt64) (payloadLen : Nat) : Nat :=
  if declared = zstdContentsizeUnknown ∨ declared = zstdContentsizeError then
    max (saturatingMul payloadLen 16) 4096
  else declared.toNat

theorem outSizeOf_eq (libs : Libraries) (payload : Bytes) :
    outSizeOf (libs.frameContentSize payload) payload.length = firstOutSize libs payload :=
  rfl

/-- What the loader says when there is no room for the output. -/
def outputAbort : Abort where
  message := "upxz-loader: out of memory allocating decompression buffer\n"
  exitCode := exitIo

/-- Free a block unless the pointer to it is null. -/
def freeUnlessNull : Option Addr → Loading α Unit
  | none => .done ()
  | some a => ask (.free a)

/-- The loop of step 5, for at most `fuel` turns, and on.  Without a turn left there is
no exit code. -/
def growStep (args : MainArgs α) (app name : Addr) (dctx payloadStart payloadLen : Nat) :
    (fuel outSize : Nat) → (dst : Option Addr) → Loading α (Option Nat)
  | 0, _, _ => .done none
  | fuel + 1, outSize, dst =>
      if maxOut < outSize then do
        ask (.warn capAbort.message)
        ask (.freeDctx dctx)
        freeUnlessNull dst
        ask (.free app)
        return some capAbort.exitCode
      else do
        let dst : Option Addr ← ask (.malloc outSize)
        match dst with
        | none => do
            ask (.warn outputAbort.message)
            ask (.freeDctx dctx)
            ask (.free app)
            return some outputAbort.exitCode
        | some dst => do
            let got : Except Nat Nat ←
              ask (.decompressDctx dctx dst outSize app payloadStart payloadLen)
            match got with
            | .ok got => do
                ask (.freeDctx dctx)
                tempStep args app name dst got
            | .error _ => do
                ask (.free dst)
                growStep args app name dctx payloadStart payloadLen fuel
                  (saturatingMul outSize 2) none

/-- What the loader says without a decompression context. -/
def dctxAbort : Abort where
  message := "upxz-loader: cannot create zstd decompression context\n"
  exitCode := exitDecompress

/-- Step 5, and on. -/
def decompressStep (args : MainArgs α) (fuel : Nat) (app name : Addr)
    (payloadStart payloadLen : Nat) : Loading α (Option Nat) := do
  let declared : UInt64 ← ask (.frameContentSize app payloadStart payloadLen)
  let dctx : Option Nat ← ask .createDctx
  match dctx with
  | none => do
      ask (.warn dctxAbort.message)
      ask (.free app)
      return some dctxAbort.exitCode
  | some dctx =>
      growStep args app name dctx payloadStart payloadLen fuel (outSizeOf declared payloadLen) none

/-! ## Step 4: the container header -/

/-- What the loader says when there is no room for the name. -/
def nameAbort : Abort where
  message := "upxz-loader: out of memory copying original name\n"
  exitCode := exitIo

/-- `EXIT_PANIC`: the panic handler ends the process. -/
def exitPanic : Nat := 70

/-- The panic handler. -/
def panicked {β : Type} : Loading α β :=
  .call (.exit exitPanic) Empty.elim

/-- Step 4, and on.  The header is checked in the block that holds the app segment; the
name goes into a block of its own. -/
def headerStep (args : MainArgs α) (fuel : Nat) (app : Addr) (appLen : Nat) :
    Loading α (Option Nat) := do
  let appBuf : Bytes ← ask (.load app 0 appLen)
  match parseApp appBuf with
  | .error (.err abort) => do
      ask (.warn abort.message)
      ask (.free app)
      return some abort.exitCode
  | .error _ => panicked
  | .ok parsed => do
      let name : Option Addr ← ask (.malloc parsed.nameCString.length)
      match name with
      | none => do
          ask (.warn nameAbort.message)
          ask (.free app)
          return some nameAbort.exitCode
      | some name => do
          ask (.store name 0 parsed.nameCString)
          decompressStep args fuel app name (appLen - parsed.payload.length)
            parsed.payload.length

/-! ## Step 3: the app segment -/

/-- What the loader says when there is no room for the app segment. -/
def segmentAbort : Abort where
  message := "upxz-loader: out of memory allocating app segment buffer\n"
  exitCode := exitIo

/-- What the loader says when it cannot open its own file again. -/
def reopenAbort : Abort where
  message := "upxz-loader: cannot reopen packed file for app segment\n"
  exitCode := exitIo

/-- What the loader says when the app segment cannot be read. -/
def appReadAbort : Abort where
  message := "upxz-loader: cannot read app segment\n"
  exitCode := exitIo

/-- Step 3, and on. -/
def segmentStep (args : MainArgs α) (fuel : Nat) (packed : PathArg α)
    (appStart appLen : Nat) : Loading α (Option Nat) := do
  let app : Option Addr ← ask (.malloc appLen)
  match app with
  | none => do
      ask (.warn segmentAbort.message)
      return some segmentAbort.exitCode
  | some app => do
      let fd : Int ← ask (.openPath packed oRdonly 0)
      if fd < 0 then do
        ask (.warn reopenAbort.message)
        ask (.free app)
        return some reopenAbort.exitCode
      else do
        let complete ← seekAndRead fd app appStart appLen
        if complete = false then do
          ask (.warn appReadAbort.message)
          ask (.close fd)
          ask (.free app)
          return some appReadAbort.exitCode
        else do
          ask (.close fd)
          headerStep args fuel app appLen

/-! ## Steps 1 and 2: the loader's own file and its trailer -/

/-- Step 2 behind the reading: check the trailer against the size of the file. -/
def checkTrailer (total : Nat) (trailer : Bytes) : Exec Abort (Nat × Nat) := do
  let tag ← liftPanic (slice trailer 0 8)
  ensure (tag = sfxTrailerMagic)
    ⟨"upxz-loader: bad trailer magic (not an upxz packed file)\n", exitFormat⟩
  let loaderLen ← liftPanic (slice trailer 8 12 >>= beU32)
  let appLen ← liftPanic (slice trailer 12 16 >>= beU32)
  let appEnd := saturatingAdd loaderLen appLen
  let trailerStart ← liftPanic (subUsize .checked total trailerLen)
  ensure (loaderLen ≤ total ∧ appEnd ≤ trailerStart)
    ⟨"upxz-loader: trailer segment lengths are inconsistent with file size\n", exitFormat⟩
  return (loaderLen, appLen)

/-- What the loader says when it cannot open its own file. -/
def openAbort : Abort where
  message := "upxz-loader: cannot open packed file\n"
  exitCode := exitIo

/-- What the loader says when it cannot find the size of its own file. -/
def seekAbort : Abort where
  message := "upxz-loader: cannot seek packed file\n"
  exitCode := exitIo

/-- What the loader says to a file without room for a trailer. -/
def smallAbort : Abort where
  message := "upxz-loader: packed file too small to contain a trailer\n"
  exitCode := exitFormat

/-- What the loader says when the trailer cannot be read. -/
def trailerReadAbort : Abort where
  message := "upxz-loader: cannot read trailer\n"
  exitCode := exitIo

/-- The path the loader opens: where dyld found it, made canonical if that succeeds, or
`argv[0]`. -/
def selfPath : Loading α (PathArg α) := do
  let found : Option Path ← ask .executablePath
  match found with
  | some path => do
      let canon : Option Path ← ask (.realpath path)
      return .buffer (canon.getD path)
  | none => do
      let p : Pointer α ← ask (.loadArg 0)
      return .given p

/-- Step 2, and on. -/
def trailerStep (args : MainArgs α) (fuel : Nat) (packed : PathArg α) (fd : Int)
    (total : Nat) : Loading α (Option Nat) := do
  let complete ← seekAndRead fd .trailer (total - trailerLen) trailerLen
  if complete = false then do
    ask (.warn trailerReadAbort.message)
    ask (.close fd)
    return some trailerReadAbort.exitCode
  else do
    ask (.close fd)
    let trailer : Bytes ← ask (.load .trailer 0 trailerLen)
    match checkTrailer total trailer with
    | .error (.err abort) => do
        ask (.warn abort.message)
        return some abort.exitCode
    | .error _ => panicked
    | .ok (appStart, appLen) => segmentStep args fuel packed appStart appLen

/-- `real_main`. -/
def realMain (args : MainArgs α) (fuel : Nat) : Loading α (Option Nat) := do
  let packed ← selfPath
  let fd : Int ← ask (.openPath packed oRdonly 0)
  if fd < 0 then do
    ask (.warn openAbort.message)
    return some openAbort.exitCode
  else do
    let size : Int ← ask (.lseek fd 0 .seekEnd)
    if size < 0 then do
      ask (.warn seekAbort.message)
      ask (.close fd)
      return some seekAbort.exitCode
    else if size.toNat < trailerLen then do
      ask (.warn smallAbort.message)
      ask (.close fd)
      return some smallAbort.exitCode
    else trailerStep args fuel packed fd size.toNat

end Calls

/-! ## The steps of the parser -/

/-- Behind the size check, reading and checking the trailer is what the parser does. -/
theorem readTrailer_eq_checkTrailer {file : Bytes} (h : trailerLen ≤ file.length) :
    readTrailer file = checkTrailer file.length (file.drop (file.length - trailerLen)) := by
  have hfits : file.length - trailerLen + trailerLen ≤ file.length := by omega
  have hall : ((file.drop (file.length - trailerLen)).take trailerLen) =
      file.drop (file.length - trailerLen) := by
    rw [List.take_of_length_le]
    rw [List.length_drop]
    omega
  unfold readTrailer checkTrailer
  simp only [ensure_of _ h, ok_bind, subUsize_ok h, liftPanic_ok, readExact, if_pos hfits, hall]

theorem readTrailer_of_short {file : Bytes} (h : ¬trailerLen ≤ file.length) :
    readTrailer file = .error (.err smallAbort) := by
  simp only [readTrailer, ensure_of_not _ h, error_bind, smallAbort]

end Loader
end Upxz
