import Upxz.Loader.Process

/-!
# Loader - What its calls do

The world a loader process runs in: its memory, descriptors and decompression contexts
are its own, the files are shared.  Allocation, short reads and writes, failing calls and
the libraries are left open as far as their documentation leaves them open; other
processes may change the files as the world's `rely` says.

Which calls are legal says what the loader has to get right.  A call is disciplined if it
touches live and written memory inside its block, closes and frees what is open and live,
hands nothing of its own on to another program, and changes no file but its temp file.

Main results:

- Theorem `acts_frame`: a disciplined call changes no file but the temp file.
- Theorem `exists_answer`: a disciplined call gets an answer, unless it hands the process
  over or ends it.
-/

namespace Upxz
namespace Loader

open Machine Format

/-! ## States -/

/-- The files, by place. -/
abbrev Files (κ : Type) := κ → Option TempNode

/-- An open file. -/
structure Desc (κ : Type) where
  place : κ
  offset : Nat
deriving DecidableEq, Repr

/-- A block of bytes, or the block of an exec vector. -/
inductive Block (α : Type) where
  | bytes (cells : Cells UInt8)
  | pointers (slots : Cells (Slot α))

/-- What a loader process has for its own, and what it has said on stderr.  A context
counts the attempts made with it. -/
structure Proc (κ α : Type) where
  mem : Memory Addr (Block α)
  fds : Memory Int (Desc κ)
  dctxs : Memory Nat Nat
  said : List String

/-- The system and the libraries around one loader process.  Its runs are followed on the
child's side of a fork only if `forked`. -/
structure Darwin (κ α : Type) where
  root : Bool
  resolve : Path → κ
  args : MainArgs α
  argPlace : Pointer α → Option κ
  pid : Int32
  self : κ
  dyldFails : Prop
  unlinkFails : Prop
  mayFail : Prop
  forked : Prop
  frameContentSize : Bytes → UInt64
  decompress : (attempt capacity : Nat) → Bytes → Except Nat Bytes
  decompress_le : ∀ {attempt capacity payload out},
    decompress attempt capacity payload = .ok out → out.length ≤ capacity
  codesign : Bytes → Bytes → Prop
  rely : Files κ → Files κ → Prop
  rely_refl : ∀ f, rely f f
  rely_trans : ∀ {f g h}, rely f g → rely g h → rely f h

section Worlds

variable {κ α : Type}

/-- The place of a NUL-terminated path. -/
def Darwin.placeOf (env : Darwin κ α) (path : Path) : Option κ :=
  (readCString path).map env.resolve

/-- The place of the path `open` is given. -/
def Darwin.argumentPlace (env : Darwin κ α) : PathArg α → Option κ
  | .buffer path => env.placeOf path
  | .given p => env.argPlace p

/-- `argv[i]`; behind the arguments stands a null pointer. -/
def Darwin.argvAt (env : Darwin κ α) (i : Nat) : Pointer α :=
  env.args.argv[i]?.getD .null

/-- The temp path of the process. -/
def Darwin.tmpPath (env : Darwin κ α) : Path :=
  Loader.tmpPath (pidAsU64 env.pid).toNat (pidAsU64 env.pid).toNat_lt

/-- The place of the temp file. -/
def Darwin.tmp (env : Darwin κ α) : κ :=
  env.resolve (tmpPrefix ++ decimal (pidAsU64 env.pid).toNat)

@[simp]
theorem Darwin.placeOf_tmpPath (env : Darwin κ α) : env.placeOf env.tmpPath = some env.tmp := by
  unfold placeOf Darwin.tmpPath
  rw [readCString_tmpPath]
  rfl

/-- The libraries with `malloc` and `ZSTD_createDCtx` succeeding. -/
def Darwin.libraries (env : Darwin κ α) : Libraries where
  frameContentSize := env.frameContentSize
  createDctx := true
  malloc := fun _ _ => true
  decompressDctx := env.decompress

/-- The bytes of the file at a place, as far as the world knows them: where no file
stands, an open descriptor may still lead to one. -/
def Reads (f : Files κ) (d : Desc κ) (bytes : Bytes) : Prop :=
  ∀ node, f d.place = some node → bytes <+: node.content.drop d.offset

/-- A read that returns no byte was for none, or came to the end of the file. -/
def AtEnd (f : Files κ) (d : Desc κ) : Prop :=
  ∀ node, f d.place = some node → node.content.length ≤ d.offset

variable [DecidableEq κ]

/-- The files after a write through a descriptor. -/
def written (f : Files κ) (d : Desc κ) (chunk : Bytes) : Files κ :=
  match f d.place with
  | some node =>
      Function.update f d.place (some { node with content := writeAt node.content d.offset chunk })
  | none => f

/-- The files after a change of mode. -/
def sealed (f : Files κ) (place : κ) (mode : Nat) : Files κ :=
  match f place with
  | some node => Function.update f place (some { node with mode := mode })
  | none => f

namespace Proc

/-- Put a block of bytes at an address. -/
def putBytes (p : Proc κ α) (a : Addr) (cells : Cells UInt8) : Proc κ α :=
  { p with mem := p.mem.put a (.bytes cells) }

/-- Put a vector at an address. -/
def putPointers (p : Proc κ α) (a : Addr) (slots : Cells (Slot α)) : Proc κ α :=
  { p with mem := p.mem.put a (.pointers slots) }

/-- Forget a block. -/
def drop (p : Proc κ α) (a : Addr) : Proc κ α :=
  { p with mem := p.mem.drop a }

/-- Open a descriptor, or move it. -/
def setFd (p : Proc κ α) (fd : Int) (d : Desc κ) : Proc κ α :=
  { p with fds := p.fds.put fd d }

/-- Close a descriptor. -/
def closeFd (p : Proc κ α) (fd : Int) : Proc κ α :=
  { p with fds := p.fds.drop fd }

/-- Create a context, or count an attempt. -/
def setDctx (p : Proc κ α) (dctx attempts : Nat) : Proc κ α :=
  { p with dctxs := p.dctxs.put dctx attempts }

/-- Free a context. -/
def freeDctx (p : Proc κ α) (dctx : Nat) : Proc κ α :=
  { p with dctxs := p.dctxs.drop dctx }

/-- Say a line. -/
def say (p : Proc κ α) (message : String) : Proc κ α :=
  { p with said := p.said ++ [message] }

end Proc

/-! ## What a call does -/

/-- What `open` does: it fails if it has to, or if calls may fail; otherwise it returns
an unused descriptor. -/
def Opens (env : Darwin κ α) (p : Proc κ α) (f : Files κ) (path : PathArg α) (flags mode : Nat)
    (fd : Int) (p' : Proc κ α) (f' : Files κ) : Prop :=
  (fd < 0 ∧ p' = p ∧ f' = f ∧
    (env.mayFail ∨ ∀ place, env.argumentPlace path = some place →
      ∃ errno, darwinOpen env.root flags mode (f place) = .error errno)) ∨
  ∃ place node, 0 ≤ fd ∧ p.fds fd = none ∧ env.argumentPlace path = some place ∧
    darwinOpen env.root flags mode (f place) = .ok node ∧ p' = p.setFd fd ⟨place, 0⟩ ∧
    f' = Function.update f place (some node)

/-- What `lseek` does. -/
def Seeks (env : Darwin κ α) (p : Proc κ α) (f : Files κ) (fd : Int) (offset : Nat)
    (whence : Whence) (r : Int) (p' : Proc κ α) : Prop :=
  (r < 0 ∧ p' = p ∧ env.mayFail) ∨
  ∃ d pos, p.fds fd = some d ∧ r = (pos : Nat) ∧ p' = p.setFd fd { d with offset := pos } ∧
    match whence with
    | .seekSet => pos = offset
    | .seekEnd => ∀ node, f d.place = some node → pos = node.content.length + offset

/-- What `read` does: it may return fewer bytes than asked for, but none only at the end
of the file. -/
def ReadsInto (env : Darwin κ α) (p : Proc κ α) (f : Files κ) (fd : Int) (buf : Addr)
    (offset count : Nat) (r : Int) (p' : Proc κ α) : Prop :=
  (r < 0 ∧ p' = p ∧ env.mayFail) ∨
  ∃ d cells bytes, p.fds fd = some d ∧ p.mem buf = some (.bytes cells) ∧
    r = (bytes.length : Nat) ∧ bytes.length ≤ count ∧ Reads f d bytes ∧
    (bytes = [] → count = 0 ∨ AtEnd f d) ∧
    p' = (p.putBytes buf (overwrite cells offset bytes)).setFd fd
      { d with offset := d.offset + bytes.length }

/-- What `write` does: it may take fewer bytes than it was offered. -/
def WritesFrom (env : Darwin κ α) (p : Proc κ α) (f : Files κ) (fd : Int) (buf : Addr)
    (offset count : Nat) (r : Int) (p' : Proc κ α) (f' : Files κ) : Prop :=
  (r ≤ 0 ∧ p' = p ∧ f' = f ∧ env.mayFail) ∨
  ∃ d cells chunk, p.fds fd = some d ∧ p.mem buf = some (.bytes cells) ∧
    r = (chunk.length : Nat) ∧ 0 < chunk.length ∧ chunk.length ≤ count ∧
    Holds cells offset chunk ∧ f' = written f d chunk ∧
    p' = p.setFd fd { d with offset := d.offset + chunk.length }

/-- What `ZSTD_decompressDCtx` does: on success the output stands at the front of the
block; after an error anything may. -/
def Decompresses (env : Darwin κ α) (p : Proc κ α) (dctx : Nat) (dst : Addr) (capacity : Nat)
    (src : Addr) (offset count : Nat) (r : Except Nat Nat) (p' : Proc κ α) : Prop :=
  ∃ attempt old cells payload rest, p.dctxs dctx = some attempt ∧
    p.mem dst = some (.bytes old) ∧ p.mem src = some (.bytes cells) ∧
    payload.length = count ∧ Holds cells offset payload ∧
    match env.decompress attempt capacity payload with
    | .ok out => r = .ok out.length ∧ rest.length = old.length - out.length ∧
        p' = (p.putBytes dst (out.map some ++ rest)).setDctx dctx (attempt + 1)
    | .error e => r = .error e ∧ rest.length = old.length ∧
        p' = (p.putBytes dst rest).setDctx dctx (attempt + 1)

/-- What a call does.  The child that signs the temp file runs while its parent waits. -/
def Acts (env : Darwin κ α) (p : Proc κ α) (f : Files κ) :
    (c : SysCall α) → Answer c → Proc κ α → Files κ → Prop
  | .executablePath, r, p', f' => p' = p ∧ f' = f ∧
      match r with
      | some path => env.placeOf path = some env.self
      | none => env.dyldFails
  | .realpath path, r, p', f' => p' = p ∧ f' = f ∧
      ∀ canon, r = some canon → env.placeOf canon = env.placeOf path
  | .loadArg i, r, p', f' => p' = p ∧ f' = f ∧ r = env.argvAt i
  | .openPath path flags mode, r, p', f' => Opens env p f path flags mode r p' f'
  | .lseek fd offset whence, r, p', f' => f' = f ∧ Seeks env p f fd offset whence r p'
  | .read fd buf offset count, r, p', f' => f' = f ∧ ReadsInto env p f fd buf offset count r p'
  | .write fd buf offset count, r, p', f' => WritesFrom env p f fd buf offset count r p' f'
  | .close fd, _, p', f' => p' = p.closeFd fd ∧ f' = f
  | .unlink path, _, p', f' => p' = p ∧
      (f' = f ∧ (env.unlinkFails ∨ env.placeOf path = none) ∨
        ∃ place, env.placeOf path = some place ∧ f' = Function.update f place none)
  | .chmod path mode, r, p', f' => p' = p ∧
      (r ≠ 0 ∧ f' = f ∧
          (env.mayFail ∨ ∀ place, env.placeOf path = some place → f place = none) ∨
        r = 0 ∧ ∃ place, env.placeOf path = some place ∧ f' = sealed f place mode)
  | .malloc size, r, p', f' => f' = f ∧
      (r = none ∧ p' = p ∧ env.mayFail ∨
        ∃ id, r = some (.block id) ∧ p.mem (.block id) = none ∧
          p' = p.putBytes (.block id) (fresh UInt8 size))
  | .mallocPointers size, r, p', f' => f' = f ∧
      (r = none ∧ p' = p ∧ env.mayFail ∨
        ∃ id, r = some (.block id) ∧ p.mem (.block id) = none ∧
          p' = p.putPointers (.block id) (fresh (Slot α) (size / pointerSize)))
  | .free a, _, p', f' => p' = p.drop a ∧ f' = f
  | .load a offset count, r, p', f' => p' = p ∧ f' = f ∧
      ∃ cells, p.mem a = some (.bytes cells) ∧ r.length = count ∧ Holds cells offset r
  | .store a offset bytes, _, p', f' => f' = f ∧
      ∃ cells, p.mem a = some (.bytes cells) ∧ p' = p.putBytes a (overwrite cells offset bytes)
  | .storePointer a i slot, _, p', f' => f' = f ∧
      ∃ slots, p.mem a = some (.pointers slots) ∧ p' = p.putPointers a (overwrite slots i [slot])
  | .frameContentSize src offset count, r, p', f' => p' = p ∧ f' = f ∧
      ∃ cells payload, p.mem src = some (.bytes cells) ∧ payload.length = count ∧
        Holds cells offset payload ∧ r = env.frameContentSize payload
  | .createDctx, r, p', f' => f' = f ∧
      (r = none ∧ p' = p ∧ env.mayFail ∨
        ∃ dctx, r = some dctx ∧ p.dctxs dctx = none ∧ p' = p.setDctx dctx 0)
  | .freeDctx dctx, _, p', f' => p' = p.freeDctx dctx ∧ f' = f
  | .decompressDctx dctx dst capacity src offset count, r, p', f' => f' = f ∧
      Decompresses env p dctx dst capacity src offset count r p'
  | .getpid, r, p', f' => p' = p ∧ f' = f ∧ r = env.pid
  | .fork, r, p', f' => p' = p ∧ f' = f ∧ (r < 0 → env.mayFail) ∧ (r = 0 → env.forked)
  | .dup2 _ _, _, p', f' => p' = p ∧ f' = f
  | .waitpid _, _, p', f' => p' = p ∧
      (f' = f ∨
        ∃ node content, f env.tmp = some node ∧ env.codesign node.content content ∧
          f' = Function.update f env.tmp (some { node with content := content }))
  | .execv _ _, _, p', f' => p' = p ∧ f' = f ∧ env.mayFail
  | .exit _, r, _, _ => r.elim
  | .warn message, _, p', f' => p' = p.say message ∧ f' = f

/-! ## What calls are legal -/

/-- A vector that `execv` may be given: every slot was written, the last pointer is null,
and every block pointed to is live and holds a C string. -/
structure ExecVector (p : Proc κ α) (slots : Cells (Slot α)) : Prop where
  ends : ∃ pointers, slots = (pointers ++ [Slot.given .null]).map some
  live : ∀ a, some (Slot.block a) ∈ slots →
    ∃ bytes : Bytes, p.mem a = some (.bytes (bytes.map some)) ∧ 0 ∈ bytes

/-- An `open` for reading, or by the child that signs and wants `/dev/null`. -/
def Untouching (env : Darwin κ α) (path : PathArg α) (flags : Nat) : Prop :=
  flags = oRdonly ∨ env.forked ∧ path = .buffer devNull ∧ flags = oWronly

/-- The calls that keep to the rules for memory, descriptors and files. -/
def Disciplined (env : Darwin κ α) (p : Proc κ α) : SysCall α → Prop
  | .executablePath => True
  | .realpath _ => True
  | .loadArg i => i ≤ env.args.argv.length
  | .openPath path flags _ => Untouching env path flags ∨ env.argumentPlace path = some env.tmp
  | .lseek fd _ _ => ∃ d, p.fds fd = some d
  | .read fd buf offset count => (∃ d, p.fds fd = some d) ∧
      ∃ cells, p.mem buf = some (.bytes cells) ∧ offset + count ≤ cells.length
  | .write fd buf offset count => (∃ d, p.fds fd = some d ∧ d.place = env.tmp) ∧
      0 < count ∧ ∃ cells, p.mem buf = some (.bytes cells) ∧ Written cells offset count
  | .close fd => ∃ d, p.fds fd = some d
  | .unlink path => env.placeOf path = some env.tmp
  | .chmod path _ => env.placeOf path = some env.tmp
  | .malloc _ => True
  | .mallocPointers _ => True
  | .free a => a ≠ .trailer ∧ ∃ block, p.mem a = some block
  | .load a offset count =>
      ∃ cells, p.mem a = some (.bytes cells) ∧ Written cells offset count
  | .store a offset bytes =>
      ∃ cells, p.mem a = some (.bytes cells) ∧ offset + bytes.length ≤ cells.length
  | .storePointer a i _ => ∃ slots, p.mem a = some (.pointers slots) ∧ i < slots.length
  | .frameContentSize src offset count =>
      ∃ cells, p.mem src = some (.bytes cells) ∧ Written cells offset count
  | .createDctx => True
  | .freeDctx dctx => ∃ attempts, p.dctxs dctx = some attempts
  | .decompressDctx dctx dst capacity src offset count =>
      (∃ attempts, p.dctxs dctx = some attempts) ∧ dst ≠ src ∧
      (∃ cells, p.mem dst = some (.bytes cells) ∧ cells.length = capacity) ∧
      ∃ cells, p.mem src = some (.bytes cells) ∧ Written cells offset count
  | .getpid => True
  | .fork => p.fds = fun _ => none
  | .dup2 fd _ => ∃ d, p.fds fd = some d
  | .waitpid _ => True
  | .execv path (.literals args) => env.forked ∧ (p.fds = fun _ => none) ∧
      path = codesignPath ∧ args = codesignArgs env.tmpPath
  | .execv path (.vector a) => (p.fds = fun _ => none) ∧ (p.dctxs = fun _ => none) ∧
      path = env.tmpPath ∧ ∃ slots, p.mem a = some (.pointers slots) ∧ ExecVector p slots ∧
        ∀ id, p.mem (.block id) ≠ none → .block id = a ∨ some (.block (.block id)) ∈ slots
  | .exit code => env.forked ∧ code = 127
  | .warn _ => True

/-! ## Frame -/

omit [DecidableEq κ] in
/-- Such an `open` neither creates the file nor empties it. -/
theorem Untouching.flags_read {env : Darwin κ α} {path : PathArg α} {flags : Nat}
    (h : Untouching env path flags) :
    flags &&& darwinCreat = 0 ∧ flags &&& darwinTrunc = 0 := by
  rcases h with rfl | ⟨-, -, rfl⟩
  · decide
  · decide

omit [DecidableEq κ] in
/-- It leaves the file as it is. -/
theorem darwinOpen_keeps {env : Darwin κ α} {path : PathArg α} {root : Bool} {flags mode : Nat}
    {node : Option TempNode} {file : TempNode} (h : Untouching env path flags)
    (hopen : darwinOpen root flags mode node = .ok file) : node = some file := by
  rcases h.flags_read with ⟨hcreat, htrunc⟩
  cases node with
  | none => simp [darwinOpen, hcreat] at hopen
  | some old =>
      simp only [darwinOpen, htrunc, ne_eq, not_true_eq_false, if_false] at hopen
      split at hopen
      · cases hopen
      · rw [Except.ok.inj hopen]

/-- A call changes a file only where its arguments lead. -/
theorem written_of_ne {f : Files κ} {d : Desc κ} {place : κ} (chunk : Bytes)
    (h : place ≠ d.place) : written f d chunk place = f place := by
  unfold written
  cases f d.place with
  | none => rfl
  | some node => exact Function.update_of_ne h ..

theorem sealed_of_ne {f : Files κ} {place other : κ} (mode : Nat) (h : other ≠ place) :
    sealed f place mode other = f other := by
  unfold sealed
  cases f place with
  | none => rfl
  | some node => exact Function.update_of_ne h ..

/-- A disciplined `open` changes no file but the temp file. -/
theorem opens_frame {env : Darwin κ α} {p p' : Proc κ α} {f f' : Files κ} {path : PathArg α}
    {flags mode : Nat} {fd : Int} (h : Disciplined env p (.openPath path flags mode))
    (hopens : Opens env p f path flags mode fd p' f') {place : κ} (hne : place ≠ env.tmp) :
    f' place = f place := by
  rcases hopens with ⟨-, -, rfl, -⟩ | ⟨opened, node, -, -, hplace, hopen, -, rfl⟩
  · rfl
  · by_cases hsame : place = opened
    · subst hsame
      rw [Function.update_self]
      rcases h with huntouching | htmp
      · exact (darwinOpen_keeps huntouching hopen).symm
      · rw [hplace] at htmp
        exact (hne (Option.some.inj htmp)).elim
    · exact Function.update_of_ne hsame ..

/-- A disciplined call changes no file but the temp file of its process. -/
theorem acts_frame {env : Darwin κ α} {p p' : Proc κ α} {f f' : Files κ} {c : SysCall α}
    {r : Answer c} (h : Disciplined env p c) (hacts : Acts env p f c r p' f') {place : κ}
    (hne : place ≠ env.tmp) : f' place = f place := by
  cases c with
  | openPath path flags mode => exact opens_frame h hacts hne
  | write fd buf offset count =>
      rcases h with ⟨⟨d, hd, hplace⟩, -⟩
      rcases hacts with ⟨-, -, rfl, -⟩ | ⟨d', cells, chunk, hd', -, -, -, -, -, rfl, -⟩
      · rfl
      · rw [hd] at hd'
        cases hd'
        rw [← hplace] at hne
        exact written_of_ne chunk hne
  | unlink path =>
      rcases hacts.2 with ⟨rfl, -⟩ | ⟨there, hthere, rfl⟩
      · rfl
      · rw [show env.placeOf path = some env.tmp from h] at hthere
        cases hthere
        exact Function.update_of_ne hne ..
  | chmod path mode =>
      rcases hacts.2 with ⟨-, rfl, -⟩ | ⟨-, there, hthere, rfl⟩
      · rfl
      · rw [show env.placeOf path = some env.tmp from h] at hthere
        cases hthere
        exact sealed_of_ne mode hne
  | waitpid child =>
      rcases hacts.2 with rfl | ⟨node, content, -, -, rfl⟩
      · rfl
      · exact Function.update_of_ne hne ..
  | exit code => exact r.elim
  | executablePath => rw [hacts.2.1]
  | realpath path => rw [hacts.2.1]
  | loadArg i => rw [hacts.2.1]
  | lseek fd offset whence => rw [hacts.1]
  | read fd buf offset count => rw [hacts.1]
  | close fd => rw [hacts.2]
  | malloc size => rw [hacts.1]
  | mallocPointers size => rw [hacts.1]
  | free a => rw [hacts.2]
  | load a offset count => rw [hacts.2.1]
  | store a offset bytes => rw [hacts.1]
  | storePointer a i slot => rw [hacts.1]
  | frameContentSize src offset count => rw [hacts.2.1]
  | createDctx => rw [hacts.1]
  | freeDctx dctx => rw [hacts.2]
  | decompressDctx dctx dst capacity src offset count => rw [hacts.1]
  | getpid => rw [hacts.2.1]
  | fork => rw [hacts.2.1]
  | dup2 fd target => rw [hacts.2]
  | execv path args => rw [hacts.2.1]
  | warn message => rw [hacts.2]

end Worlds

/-! ## Progress -/

section Progress

variable {κ α : Type}

/-- dyld fails, or some path leads to the packed file. -/
def Darwin.Found (env : Darwin κ α) : Prop :=
  env.dyldFails ∨ ∃ path, env.placeOf path = some env.self

/-- The process holds finitely many blocks, descriptors and contexts. -/
structure Proc.Finitary (p : Proc κ α) : Prop where
  blocks : p.mem.Finitary
  fds : p.fds.Finitary
  dctxs : p.dctxs.Finitary

namespace Proc.Finitary

variable {p : Proc κ α}

theorem putBytes (h : p.Finitary) (a : Addr) (cells : Cells UInt8) :
    (p.putBytes a cells).Finitary :=
  { h with blocks := h.blocks.put a (.bytes cells) }

theorem putPointers (h : p.Finitary) (a : Addr) (slots : Cells (Slot α)) :
    (p.putPointers a slots).Finitary :=
  { h with blocks := h.blocks.put a (.pointers slots) }

theorem drop (h : p.Finitary) (a : Addr) : (p.drop a).Finitary :=
  { h with blocks := h.blocks.drop a }

theorem setFd (h : p.Finitary) (fd : Int) (d : Desc κ) : (p.setFd fd d).Finitary :=
  { h with fds := h.fds.put fd d }

theorem closeFd (h : p.Finitary) (fd : Int) : (p.closeFd fd).Finitary :=
  { h with fds := h.fds.drop fd }

theorem setDctx (h : p.Finitary) (dctx attempts : Nat) : (p.setDctx dctx attempts).Finitary :=
  { h with dctxs := h.dctxs.put dctx attempts }

theorem freeDctx (h : p.Finitary) (dctx : Nat) : (p.freeDctx dctx).Finitary :=
  { h with dctxs := h.dctxs.drop dctx }

theorem say (h : p.Finitary) (message : String) : (p.say message).Finitary :=
  { h with }

/-- There is always an address, a descriptor and a context left. -/
theorem exists_free (h : p.Finitary) : (∃ id, p.mem (.block id) = none) ∧
    (∃ fd : Int, 0 ≤ fd ∧ p.fds fd = none) ∧ ∃ dctx, p.dctxs dctx = none := by
  have hblock : Function.Injective Addr.block := fun _ _ => Addr.block.inj
  have hnat : Function.Injective fun n : Nat => (n : Int) := fun _ _ => Int.ofNat.inj
  rcases h.fds.exists_free hnat with ⟨n, hn⟩
  exact ⟨h.blocks.exists_free hblock, ⟨n, Int.natCast_nonneg n, hn⟩,
    h.dctxs.exists_free Function.injective_id⟩

end Proc.Finitary

/-- A `read` into a block gets an answer. -/
theorem exists_readsInto {env : Darwin κ α} {p : Proc κ α} (f : Files κ) {fd : Int} {buf : Addr}
    {offset count : Nat} (h : Disciplined env p (.read fd buf offset count)) :
    ∃ r p', ReadsInto env p f fd buf offset count r p' := by
  rcases h with ⟨⟨d, hd⟩, cells, hcells, -⟩
  cases hnode : f d.place with
  | none =>
      refine ⟨_, _, Or.inr ⟨d, cells, [], hd, hcells, rfl, Nat.zero_le _, ?_, ?_, rfl⟩⟩
      · intro node hsome
        rw [hnode] at hsome
        cases hsome
      · intro _
        refine Or.inr ?_
        intro node hsome
        rw [hnode] at hsome
        cases hsome
  | some node =>
      refine ⟨_, _, Or.inr ⟨d, cells, (node.content.drop d.offset).take count, hd, hcells, rfl,
        List.length_take_le _ _, ?_, ?_, rfl⟩⟩
      · intro there hthere
        rw [hnode] at hthere
        cases hthere
        exact List.take_prefix _ _
      · intro hnil
        rw [List.take_eq_nil_iff] at hnil
        rcases hnil with hcount | hdrop
        · exact Or.inl hcount
        · refine Or.inr ?_
          intro there hthere
          rw [hnode] at hthere
          cases hthere
          exact List.drop_eq_nil_iff.mp hdrop

/-- A decompression gets an answer. -/
theorem exists_decompresses {env : Darwin κ α} {p : Proc κ α} {dctx : Nat} {dst src : Addr}
    {capacity offset count : Nat}
    (h : Disciplined env p (.decompressDctx dctx dst capacity src offset count)) :
    ∃ r p', Decompresses env p dctx dst capacity src offset count r p' := by
  rcases h with ⟨⟨attempt, hattempt⟩, -, ⟨old, hold, -⟩, cells, hcells, payload, hlen, hholds⟩
  unfold Decompresses
  cases hresult : env.decompress attempt capacity payload with
  | ok out =>
      refine ⟨.ok out.length, (p.putBytes dst (out.map some ++
        fresh UInt8 (old.length - out.length))).setDctx dctx (attempt + 1), attempt, old, cells,
        payload, fresh UInt8 (old.length - out.length), hattempt, hold, hcells, hlen, hholds, ?_⟩
      rw [hresult]
      exact ⟨rfl, fresh_length _, rfl⟩
  | error e =>
      refine ⟨.error e, (p.putBytes dst (fresh UInt8 old.length)).setDctx dctx (attempt + 1),
        attempt, old, cells, payload, fresh UInt8 old.length, hattempt, hold, hcells, hlen,
        hholds, ?_⟩
      rw [hresult]
      exact ⟨rfl, fresh_length _, rfl⟩

variable [DecidableEq κ]

/-- An `open` of a place gets an answer. -/
theorem exists_opens {env : Darwin κ α} {p : Proc κ α} (hfinite : p.Finitary) (f : Files κ)
    (path : PathArg α) (flags mode : Nat) : ∃ fd p' f', Opens env p f path flags mode fd p' f' := by
  rcases hfinite.exists_free.2.1 with ⟨fd, hpos, hfree⟩
  cases hplace : env.argumentPlace path with
  | none =>
      refine ⟨-1, p, f, Or.inl ⟨by decide, rfl, rfl, Or.inr ?_⟩⟩
      intro place hsome
      rw [hplace] at hsome
      cases hsome
  | some place =>
      cases hopen : darwinOpen env.root flags mode (f place) with
      | error errno =>
          refine ⟨-1, p, f, Or.inl ⟨by decide, rfl, rfl, Or.inr ?_⟩⟩
          intro there hthere
          rw [hplace] at hthere
          cases hthere
          exact ⟨errno, hopen⟩
      | ok node =>
          exact ⟨fd, _, _, Or.inr ⟨place, node, hpos, hfree, hplace, hopen, rfl, rfl⟩⟩

/-- A call leaves finitely many blocks, descriptors and contexts. -/
theorem acts_finitary {env : Darwin κ α} {p p' : Proc κ α} {f f' : Files κ} {c : SysCall α}
    {r : Answer c} (hacts : Acts env p f c r p' f') (h : p.Finitary) : p'.Finitary := by
  cases c with
  | openPath path flags mode =>
      rcases hacts with ⟨-, rfl, -⟩ | ⟨place, node, -, -, -, -, rfl, -⟩
      · exact h
      · exact h.setFd ..
  | lseek fd offset whence =>
      rcases hacts.2 with ⟨-, rfl, -⟩ | ⟨d, pos, -, -, rfl, -⟩
      · exact h
      · exact h.setFd ..
  | read fd buf offset count =>
      rcases hacts.2 with ⟨-, rfl, -⟩ | ⟨d, cells, bytes, -, -, -, -, -, -, rfl⟩
      · exact h
      · exact (h.putBytes ..).setFd ..
  | write fd buf offset count =>
      rcases hacts with ⟨-, rfl, -⟩ | ⟨d, cells, chunk, -, -, -, -, -, -, -, rfl⟩
      · exact h
      · exact h.setFd ..
  | malloc size =>
      rcases hacts.2 with ⟨-, rfl, -⟩ | ⟨id, -, -, rfl⟩
      · exact h
      · exact h.putBytes ..
  | mallocPointers size =>
      rcases hacts.2 with ⟨-, rfl, -⟩ | ⟨id, -, -, rfl⟩
      · exact h
      · exact h.putPointers ..
  | createDctx =>
      rcases hacts.2 with ⟨-, rfl, -⟩ | ⟨dctx, -, -, rfl⟩
      · exact h
      · exact h.setDctx ..
  | decompressDctx dctx dst capacity src offset count =>
      rcases hacts.2 with ⟨attempt, old, cells, payload, rest, -, -, -, -, -, hresult⟩
      split at hresult
      · rcases hresult with ⟨-, -, rfl⟩
        exact (h.putBytes ..).setDctx ..
      · rcases hresult with ⟨-, -, rfl⟩
        exact (h.putBytes ..).setDctx ..
  | store a offset bytes =>
      rcases hacts.2 with ⟨cells, -, rfl⟩
      exact h.putBytes ..
  | storePointer a i slot =>
      rcases hacts.2 with ⟨slots, -, rfl⟩
      exact h.putPointers ..
  | close fd => exact hacts.1 ▸ h.closeFd fd
  | free a => exact hacts.1 ▸ h.drop a
  | freeDctx dctx => exact hacts.1 ▸ h.freeDctx dctx
  | warn message => exact hacts.1 ▸ h.say message
  | exit code => exact r.elim
  | executablePath => exact hacts.1 ▸ h
  | realpath path => exact hacts.1 ▸ h
  | loadArg i => exact hacts.1 ▸ h
  | unlink path => exact hacts.1 ▸ h
  | chmod path mode => exact hacts.1 ▸ h
  | load a offset count => exact hacts.1 ▸ h
  | frameContentSize src offset count => exact hacts.1 ▸ h
  | getpid => exact hacts.1 ▸ h
  | fork => exact hacts.1 ▸ h
  | dup2 fd target => exact hacts.1 ▸ h
  | waitpid child => exact hacts.1 ▸ h
  | execv path args => exact hacts.1 ▸ h

/-- A disciplined call gets an answer, unless it ends the process or hands it over. -/
theorem exists_answer {env : Darwin κ α} {p : Proc κ α} (hfound : env.Found)
    (hfinite : p.Finitary) (f : Files κ) {c : SysCall α} (h : Disciplined env p c)
    (hexec : ∀ path args, c ≠ .execv path args) (hexit : ∀ code, c ≠ .exit code) :
    ∃ r p' f', Acts env p f c r p' f' := by
  obtain ⟨⟨id, hid⟩, -, dctx, hdctx⟩ := hfinite.exists_free
  cases c with
  | executablePath =>
      rcases hfound with hfails | ⟨path, hpath⟩
      · exact ⟨none, p, f, rfl, rfl, hfails⟩
      · exact ⟨some path, p, f, rfl, rfl, hpath⟩
  | realpath path =>
      refine ⟨none, p, f, rfl, rfl, ?_⟩
      intro canon hcanon
      cases hcanon
  | loadArg i => exact ⟨_, p, f, rfl, rfl, rfl⟩
  | openPath path flags mode => exact exists_opens hfinite f path flags mode
  | lseek fd offset whence =>
      rcases h with ⟨d, hd⟩
      cases whence with
      | seekSet => exact ⟨_, _, f, rfl, Or.inr ⟨d, offset, hd, rfl, rfl, rfl⟩⟩
      | seekEnd =>
          cases hnode : f d.place with
          | none =>
              refine ⟨_, _, f, rfl, Or.inr ⟨d, offset, hd, rfl, rfl, ?_⟩⟩
              intro node hsome
              rw [hnode] at hsome
              cases hsome
          | some node =>
              refine ⟨_, _, f, rfl,
                Or.inr ⟨d, node.content.length + offset, hd, rfl, rfl, ?_⟩⟩
              intro there hthere
              rw [hnode] at hthere
              cases hthere
              rfl
  | read fd buf offset count =>
      rcases exists_readsInto f h with ⟨r, p', hreads⟩
      exact ⟨r, p', f, rfl, hreads⟩
  | write fd buf offset count =>
      rcases h with ⟨⟨d, hd, -⟩, hpos, cells, hcells, chunk, hlen, hholds⟩
      exact ⟨_, _, _, Or.inr ⟨d, cells, chunk, hd, hcells, rfl, hlen ▸ hpos, Nat.le_of_eq hlen,
        hholds, rfl, rfl⟩⟩
  | close fd => exact ⟨(), _, f, rfl, rfl⟩
  | unlink path => exact ⟨(), p, _, rfl, Or.inr ⟨env.tmp, h, rfl⟩⟩
  | chmod path mode => exact ⟨0, p, _, rfl, Or.inr ⟨rfl, env.tmp, h, rfl⟩⟩
  | malloc size => exact ⟨_, _, f, rfl, Or.inr ⟨id, rfl, hid, rfl⟩⟩
  | mallocPointers size => exact ⟨_, _, f, rfl, Or.inr ⟨id, rfl, hid, rfl⟩⟩
  | free a => exact ⟨(), _, f, rfl, rfl⟩
  | load a offset count =>
      rcases h with ⟨cells, hcells, values, hlen, hholds⟩
      exact ⟨values, p, f, rfl, rfl, cells, hcells, hlen, hholds⟩
  | store a offset bytes =>
      rcases h with ⟨cells, hcells, -⟩
      exact ⟨(), _, f, rfl, cells, hcells, rfl⟩
  | storePointer a i slot =>
      rcases h with ⟨slots, hslots, -⟩
      exact ⟨(), _, f, rfl, slots, hslots, rfl⟩
  | frameContentSize src offset count =>
      rcases h with ⟨cells, hcells, values, hlen, hholds⟩
      exact ⟨_, p, f, rfl, rfl, cells, values, hcells, hlen, hholds, rfl⟩
  | createDctx => exact ⟨_, _, f, rfl, Or.inr ⟨dctx, rfl, hdctx, rfl⟩⟩
  | freeDctx dctx => exact ⟨(), _, f, rfl, rfl⟩
  | decompressDctx dctx dst capacity src offset count =>
      rcases exists_decompresses h with ⟨r, p', hdecompresses⟩
      exact ⟨r, p', f, rfl, hdecompresses⟩
  | getpid => exact ⟨env.pid, p, f, rfl, rfl, rfl⟩
  | fork =>
      have hpos : ¬(1 : Int) < 0 := by decide
      have hparent : (1 : Int) ≠ 0 := by decide
      exact ⟨(1 : Int), p, f, rfl, rfl, fun hneg => (hpos hneg).elim,
        fun hzero => (hparent hzero).elim⟩
  | dup2 fd target => exact ⟨(), p, f, rfl, rfl⟩
  | waitpid child => exact ⟨(), p, f, rfl, Or.inl rfl⟩
  | execv path args => exact (hexec path args rfl).elim
  | exit code => exact (hexit code rfl).elim
  | warn message => exact ⟨(), _, f, rfl, rfl⟩

end Progress

end Loader
end Upxz
