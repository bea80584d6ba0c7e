import Upxz.Machine.UnixPath

/-!
# Machine - Windows path components

A path on Windows, read the way `std::path` does: a volume (a drive, a network share, a
device, or the verbatim form of one), a root and the components behind them.  Paths are
compared by these parts, and a path is joined to another one part by part.

Main results:

- Theorem `ofText_plainName`: a plain name is a path of one component.
- Theorem `join_ofText_plainName`: joined to any directory it becomes the last component.
- Theorem `join_plainName`: so it is a child of that directory, by its own name.
- Theorem `FlatName.isChild_join_iff`: a name without separators is one exactly when it begins
  with no drive.
-/

namespace Machine

/-- `std::path::Prefix`. -/
inductive Volume where
  | verbatim (name : Bytes)
  | verbatimUnc (server share : Bytes)
  | verbatimDisk (drive : UInt8)
  | deviceNs (name : Bytes)
  | unc (server share : Bytes)
  | disk (drive : UInt8)
deriving DecidableEq, Repr

/-- A path by its parts. -/
structure WindowsPath where
  volume : Option Volume
  rooted : Bool
  body : List Component
deriving DecidableEq, Repr

namespace WindowsPath

/-! ## Volumes -/

/-- The byte `\`. -/
def backslash : UInt8 := 0x5C

/-- The byte `:`. -/
def colon : UInt8 := 0x3A

/-- A separator of an ordinary path. -/
def isSep (b : UInt8) : Bool := b == slash || b == backslash

/-- The one separator of a verbatim path. -/
def isVerbatimSep (b : UInt8) : Bool := b == backslash

/-- A text begins with a lead, either separator counting as `\`. -/
def startsWith (text lead : Bytes) : Bool :=
  (text.take lead.length).map (fun b => if b = slash then backslash else b) = lead

/-- The text up to a separator, and what is behind that. -/
def nextComponent (sep : UInt8 → Bool) (text : Bytes) : Bytes × Bytes :=
  (text.takeWhile (!sep ·), (text.dropWhile (!sep ·)).drop 1)

/-- The letter of a drive. -/
def driveLetter (b : UInt8) : Option UInt8 :=
  if 0x41 ≤ b ∧ b ≤ 0x5A then some b
  else if 0x61 ≤ b ∧ b ≤ 0x7A then some (b - 0x20)
  else none

/-- A drive, with its colon, at the start of a text. -/
def parseDrive : Bytes → Option UInt8
  | b :: c :: _ => if c = colon then driveLetter b else none
  | _ => none

/-- A drive in front of a separator or at the end. -/
def parseDriveExact (text : Bytes) : Option UInt8 :=
  match text[2]? with
  | none => parseDrive text
  | some b => if isSep b then parseDrive text else none

/-- The volume a text begins with. -/
def parseVolume (text : Bytes) : Option Volume :=
  if startsWith text [backslash, backslash] then
    let rest := text.drop 2
    if startsWith rest [0x3F, backslash] ∧ slash ∉ text.take 4 then
      let rest := rest.drop 2
      if startsWith rest [0x55, 0x4E, 0x43, backslash] then
        let (server, rest) := nextComponent isVerbatimSep (rest.drop 4)
        some (.verbatimUnc server (nextComponent isVerbatimSep rest).1)
      else
        match parseDriveExact rest with
        | some drive => some (.verbatimDisk drive)
        | none => some (.verbatim (nextComponent isVerbatimSep rest).1)
    else if startsWith rest [dot, backslash] then
      some (.deviceNs (nextComponent isSep (rest.drop 2)).1)
    else
      let (server, rest) := nextComponent isSep rest
      let share := (nextComponent isSep rest).1
      if server ≠ [] ∧ share ≠ [] then some (.unc server share) else none
  else (parseDrive text).map .disk

/-- Length of the share of a network volume, with the separator in front. -/
def shareLen (share : Bytes) : Nat :=
  if share = [] then 0 else 1 + share.length

/-- Length of the text of a volume. -/
def volumeLen : Volume → Nat
  | .verbatim name => 4 + name.length
  | .verbatimUnc server share => 8 + server.length + shareLen share
  | .verbatimDisk _ => 6
  | .deviceNs name => 4 + name.length
  | .unc server share => 2 + server.length + shareLen share
  | .disk _ => 2

/-- A verbatim volume: `/` is no separator and `.` a component behind it. -/
def isVerbatim : Volume → Bool
  | .verbatim _ => true
  | .verbatimUnc _ _ => true
  | .verbatimDisk _ => true
  | _ => false

/-- A bare drive, the only volume a path can be relative to. -/
def isDisk : Volume → Bool
  | .disk _ => true
  | _ => false

/-! ## Reading a text -/

/-- The component one piece between separators stands for, if any. -/
def pieceComponent (verbatim : Bool) (piece : Bytes) : Option Component :=
  if piece = [] then none
  else if piece = [dot] then if verbatim then some .curDir else none
  else if piece = [dot, dot] then some .parentDir
  else some (.normal piece)

/-- `Path::components` of a text. -/
def ofText (text : Bytes) : WindowsPath :=
  let volume := parseVolume text
  let verbatim := volume.any isVerbatim
  let rest := text.drop ((volume.map volumeLen).getD 0)
  let pieces := rest.splitOnP (if verbatim then isVerbatimSep else isSep)
  let rooted := volume.any (!isDisk ·) || rest.head?.any isSep
  let body := pieces.filterMap (pieceComponent verbatim)
  ⟨volume, rooted, if rooted = false ∧ pieces.head? = some [dot] then .curDir :: body else body⟩

/-! ## Joining -/

/-- Push one component onto the body of a verbatim path. -/
def pushVerbatim (body : List Component) (c : Component) : List Component :=
  match c with
  | .curDir => body
  | .parentDir =>
      match body.getLast? with
      | some (.normal _) => body.dropLast
      | _ => body
  | c => body ++ [c]

/-- `Path::join`. -/
def join (dir path : WindowsPath) : WindowsPath :=
  if path.volume.isSome then path
  else if dir.volume.any isVerbatim then
    { dir with body := path.body.foldl pushVerbatim (if path.rooted then [] else dir.body) }
  else if path.rooted then { dir with rooted := true, body := path.body }
  else if dir.rooted = false ∧ dir.body = [] then { dir with body := path.body }
  else { dir with body := dir.body ++ path.body.filter (· ≠ .curDir) }

/-- `Path::parent`. -/
def parent (path : WindowsPath) : Option WindowsPath :=
  if path.body = [] then none else some { path with body := path.body.dropLast }

/-- `Path::file_name`. -/
def fileName (path : WindowsPath) : Option Bytes :=
  match path.body.getLast? with
  | some (.normal name) => some name
  | _ => none

/-- The path is an entry of the directory, by the given name. -/
structure IsChild (dir : WindowsPath) (name : Bytes) (path : WindowsPath) : Prop where
  parent : path.parent = some dir
  fileName : path.fileName = some name

theorem eq_of_pieceComponent {verbatim : Bool} {piece name : Bytes}
    (h : pieceComponent verbatim piece = some (.normal name)) : piece = name := by
  unfold pieceComponent at h
  split_ifs at h
  · cases h
  · cases h
  · cases h
    rfl

theorem normal_mem_of_curDir {cond : Prop} [Decidable cond] {body : List Component}
    {name : Bytes} (h : .normal name ∈ if cond then .curDir :: body else body) :
    .normal name ∈ body := by
  split_ifs at h
  · simpa using h
  · exact h

/-- A file name is one of the pieces behind the volume. -/
theorem mem_pieces_of_fileName {text name : Bytes} (h : (ofText text).fileName = some name) :
    name ∈ (text.drop (((parseVolume text).map volumeLen).getD 0)).splitOnP
      (if (parseVolume text).any isVerbatim then isVerbatimSep else isSep) := by
  unfold fileName at h
  split at h
  · rename_i last hlast
    cases h
    have hbody := List.mem_of_getLast? hlast
    unfold ofText at hbody
    dsimp only at hbody
    rcases List.mem_filterMap.mp (normal_mem_of_curDir hbody) with ⟨piece, hmem, hcomponent⟩
    rw [← eq_of_pieceComponent hcomponent]
    exact hmem
  · cases h

/-! ## Names without a separator -/

/-- A normal name that no separator of Windows splits. -/
structure FlatName (name : Bytes) : Prop extends NormalName name where
  no_backslash : backslash ∉ name

section Flat

variable {name : Bytes}

theorem FlatName.isSep_eq_false (h : FlatName name) : ∀ b ∈ name, isSep b = false := by
  intro b hb
  have hslash : b ≠ slash := fun heq => h.no_slash (heq ▸ hb)
  have hback : b ≠ backslash := fun heq => h.no_backslash (heq ▸ hb)
  simp [isSep, hslash, hback]

/-- The only volume it can begin with is a drive. -/
theorem FlatName.parseVolume_eq (h : FlatName name) :
    parseVolume name = (parseDrive name).map .disk := by
  have hnet : startsWith name [backslash, backslash] = false := by
    cases name with
    | nil => exact (h.ne_nil rfl).elim
    | cons b bs =>
        have hslash : b ≠ slash := fun heq => h.no_slash (heq ▸ List.mem_cons_self)
        have hback : b ≠ backslash := fun heq => h.no_backslash (heq ▸ List.mem_cons_self)
        simp [startsWith, hslash, hback]
  rw [parseVolume, if_neg (by rw [hnet]; exact Bool.noConfusion)]

theorem FlatName.splitOnP_eq (h : FlatName name) : name.splitOnP isSep = [name] :=
  List.splitOnP_eq_singleton h.isSep_eq_false

theorem FlatName.head_plain (h : FlatName name) : name.head?.any isSep = false := by
  cases name with
  | nil => rfl
  | cons b bs => exact h.isSep_eq_false b List.mem_cons_self

theorem FlatName.filterMap_singleton (h : FlatName name) :
    [name].filterMap (pieceComponent false) = [.normal name] := by
  have hpiece : pieceComponent false name = some (.normal name) := by
    rw [pieceComponent, if_neg h.ne_nil, if_neg h.ne_dot, if_neg h.ne_dotdot]
  rw [List.filterMap_cons_some hpiece, List.filterMap_nil]

/-- Without a drive it is a path of one component. -/
theorem FlatName.ofText_eq (h : FlatName name) (hdrive : parseDrive name = none) :
    ofText name = ⟨none, false, [.normal name]⟩ := by
  unfold ofText
  rw [h.parseVolume_eq, hdrive]
  simp [h.splitOnP_eq, h.head_plain, h.filterMap_singleton, h.ne_dot]

/-- Joined to any directory it then becomes the last component. -/
theorem FlatName.join_ofText (dir : WindowsPath) (h : FlatName name)
    (hdrive : parseDrive name = none) :
    dir.join (ofText name) = { dir with body := dir.body ++ [.normal name] } := by
  rw [h.ofText_eq hdrive]
  simp only [join, Option.isSome_none, Bool.false_eq_true, if_false]
  split_ifs with hverbatim hempty
  · rfl
  · rw [hempty.2]
    rfl
  · rfl

/-- And it is a child of that directory. -/
theorem FlatName.isChild_join (dir : WindowsPath) (h : FlatName name)
    (hdrive : parseDrive name = none) : IsChild dir name (dir.join (ofText name)) := by
  rw [h.join_ofText dir hdrive]
  constructor
  · rw [parent, if_neg (List.append_ne_nil_of_right_ne_nil _ (List.cons_ne_nil _ _)),
      List.dropLast_concat]
  · rw [fileName, List.getLast?_concat]

theorem exists_cons_of_parseDrive {text : Bytes} {drive : UInt8}
    (h : parseDrive text = some drive) : ∃ b c rest, text = b :: c :: rest := by
  unfold parseDrive at h
  split at h
  · exact ⟨_, _, _, rfl⟩
  · cases h

/-- With a drive it is a path on that drive, of what stands behind the colon. -/
theorem FlatName.ofText_of_drive {drive : UInt8} (h : FlatName name)
    (hdrive : parseDrive name = some drive) :
    (ofText name).volume = some (.disk drive) ∧ (ofText name).fileName ≠ some name := by
  rcases exists_cons_of_parseDrive hdrive with ⟨b, c, rest, rfl⟩
  have hvolume : parseVolume (b :: c :: rest) = some (.disk drive) := by
    rw [h.parseVolume_eq, hdrive, Option.map_some]
  refine ⟨hvolume, ?_⟩
  intro hname
  have hpiece := mem_pieces_of_fileName hname
  have hsplit : rest.splitOnP isSep = [rest] := List.splitOnP_eq_singleton fun b hb =>
    h.isSep_eq_false b (List.mem_cons_of_mem _ (List.mem_cons_of_mem _ hb))
  rw [hvolume, Option.map_some, Option.getD_some, Option.any_some] at hpiece
  have hlength := congrArg List.length (List.mem_singleton.mp (hsplit ▸ hpiece))
  rw [List.length_cons, List.length_cons] at hlength
  omega

/-- So the name is a child of every directory exactly when it begins with no drive. -/
theorem FlatName.isChild_join_iff (h : FlatName name) :
    (∀ dir : WindowsPath, IsChild dir name (dir.join (ofText name))) ↔
      parseDrive name = none := by
  constructor
  · intro hall
    cases hdrive : parseDrive name with
    | none => rfl
    | some drive =>
        rcases h.ofText_of_drive hdrive with ⟨hvolume, hname⟩
        have hjoin : join ⟨none, false, []⟩ (ofText name) = ofText name := by
          rw [join, if_pos (by rw [hvolume]; rfl)]
        have hchild := (hall ⟨none, false, []⟩).fileName
        rw [hjoin] at hchild
        exact (hname hchild).elim
  · intro hdrive dir
    exact h.isChild_join dir hdrive

end Flat

/-! ## Plain names -/

/-- A name that is one component wherever it stands, and names no stream of a file. -/
structure PlainName (name : Bytes) : Prop extends FlatName name where
  no_colon : colon ∉ name

theorem PlainName.parseDrive_eq {name : Bytes} (h : PlainName name) : parseDrive name = none := by
  unfold parseDrive
  split
  · rename_i b c rest
    apply if_neg
    intro hcolon
    apply h.no_colon
    rw [hcolon]
    exact List.mem_cons_of_mem b List.mem_cons_self
  · rfl

/-- A plain name is a path of one component. -/
theorem ofText_plainName {name : Bytes} (h : PlainName name) :
    ofText name = ⟨none, false, [.normal name]⟩ :=
  h.toFlatName.ofText_eq h.parseDrive_eq

/-- Joined to any directory a plain name becomes its last component. -/
theorem join_ofText_plainName (dir : WindowsPath) {name : Bytes} (h : PlainName name) :
    dir.join (ofText name) = { dir with body := dir.body ++ [.normal name] } :=
  h.toFlatName.join_ofText dir h.parseDrive_eq

/-- Joined to any directory a plain name is a child of it. -/
theorem join_plainName (dir : WindowsPath) {name : Bytes} (h : PlainName name) :
    IsChild dir name (dir.join (ofText name)) :=
  h.toFlatName.isChild_join dir h.parseDrive_eq

end WindowsPath
end Machine
