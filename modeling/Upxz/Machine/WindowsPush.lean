import Mathlib.Data.List.TakeWhile
import Upxz.Machine.WindowsPath

/-!
# Machine - Windows paths put together as texts

`PathBuf::push` does not join parts: it puts one text behind another, with a separator in
between where one is needed, and what comes out is read anew.  On a drive or a share this
is the join by parts, because the text of such a volume is read as that volume whatever
follows it.  (It is not so behind `\\server`, where more text makes a share.)

Main results:

- Theorem `exists_volumeText`: a directory on a drive or a share is the text of its
  volume and what follows it.
- Theorem `ofText_pushText`: a plain name put behind the text of such a directory is read
  as the directory joined with the name.
-/

namespace Machine
namespace WindowsPath

/-! ## Putting texts together -/

/-- Whether the text of a directory needs a separator before more can follow: it does not
end in one, and it is neither empty nor a bare drive. -/
def needsSep (dir : Bytes) : Bool :=
  dir.getLast?.any (!isSep ·) &&
    !(parseVolume dir).any (fun volume => isDisk volume && volumeLen volume == dir.length)

/-- `PathBuf::push` of a path with neither volume nor root, onto a directory that is not
verbatim. -/
def pushText (dir path : Bytes) : Bytes :=
  if needsSep dir then dir ++ backslash :: path else dir ++ path

/-- A drive or a share, the volumes of ordinary absolute paths. -/
def isDriveOrShare : Volume → Bool
  | .disk _ => true
  | .unc _ _ => true
  | _ => false

/-! ## Behind a volume -/

/-- The path of a text, given the volume it begins with and what follows that. -/
def readBehind (volume : Option Volume) (rest : Bytes) : WindowsPath :=
  let pieces := rest.splitOnP isSep
  let rooted := volume.any (!isDisk ·) || rest.head?.any isSep
  let body := pieces.filterMap (pieceComponent false)
  ⟨volume, rooted, if rooted = false ∧ pieces.head? = some [dot] then .curDir :: body else body⟩

theorem ofText_eq_readBehind {text : Bytes} {volume : Volume}
    (hvolume : parseVolume text = some volume) (hverbatim : isVerbatim volume = false) :
    ofText text = readBehind (some volume) (text.drop (volumeLen volume)) := by
  unfold ofText readBehind
  rw [hvolume]
  simp [hverbatim]

/-- One more piece at the end is one more component. -/
theorem readBehind_pieces {volume : Option Volume} {rest more name : Bytes} {pieces : List Bytes}
    (h : PlainName name) (hpieces : pieces ≠ [])
    (hrest : rest.splitOnP isSep = pieces ∨ rest.splitOnP isSep = pieces ++ [[]])
    (hmore : more.splitOnP isSep = pieces ++ [name])
    (hroot : (readBehind volume more).rooted = (readBehind volume rest).rooted) :
    readBehind volume more =
      { readBehind volume rest with body := (readBehind volume rest).body ++ [.normal name] } := by
  have hhead : (more.splitOnP isSep).head? = (rest.splitOnP isSep).head? := by
    rw [hmore, List.head?_append_of_ne_nil _ hpieces]
    rcases hrest with hrest | hrest
    · rw [hrest]
    · rw [hrest, List.head?_append_of_ne_nil _ hpieces]
  have hbody : (more.splitOnP isSep).filterMap (pieceComponent false) =
      (rest.splitOnP isSep).filterMap (pieceComponent false) ++ [.normal name] := by
    rw [hmore, List.filterMap_append, h.filterMap_singleton]
    rcases hrest with hrest | hrest
    · rw [hrest]
    · rw [hrest, List.filterMap_append]
      simp [pieceComponent]
  unfold readBehind at hroot ⊢
  dsimp only at hroot ⊢
  rw [hhead, hbody, hroot]
  split_ifs <;> rfl

/-- A name behind what already ends in a separator. -/
theorem readBehind_trailing {volume : Option Volume} {front name : Bytes} {s : UInt8}
    (h : PlainName name) (hs : isSep s = true) :
    readBehind volume (front ++ s :: name) =
      { readBehind volume (front ++ [s]) with
        body := (readBehind volume (front ++ [s])).body ++ [.normal name] } := by
  apply readBehind_pieces h (List.splitOnP_ne_nil isSep front)
  · right
    rw [List.splitOnP_append_cons front [] hs, List.splitOnP_nil]
  · rw [List.splitOnP_append_cons front name hs, h.splitOnP_eq]
  · simp [readBehind, List.head?_append]

/-- A name behind a separator of its own. -/
theorem readBehind_backslash {volume : Option Volume} {rest name : Bytes} (h : PlainName name)
    (hroot : rest = [] → volume.any (!isDisk ·) = true) :
    readBehind volume (rest ++ backslash :: name) =
      { readBehind volume rest with body := (readBehind volume rest).body ++ [.normal name] } := by
  have hs : isSep backslash = true := by decide
  apply readBehind_pieces h (List.splitOnP_ne_nil isSep rest) (Or.inl rfl)
  · rw [List.splitOnP_append_cons rest name hs, h.splitOnP_eq]
  · cases rest with
    | nil => simp [readBehind, hroot rfl]
    | cons b rest => simp [readBehind]

/-- A name behind a bare drive. -/
theorem readBehind_bare {drive : UInt8} {name : Bytes} (h : PlainName name) :
    readBehind (some (.disk drive)) name =
      { readBehind (some (.disk drive)) [] with
        body := (readBehind (some (.disk drive)) []).body ++ [.normal name] } := by
  unfold readBehind
  dsimp only
  rw [h.splitOnP_eq, h.filterMap_singleton, h.head_plain]
  simp [isDisk, pieceComponent, h.ne_dot]

/-! ## What is read as a drive or a share -/

/-- Two separators in front of a server, and not the start of a verbatim or device path. -/
@[mk_iff]
structure NetText (text : Bytes) : Prop where
  net : startsWith text [backslash, backslash] = true
  not_verbatim : ¬(startsWith (text.drop 2) [0x3F, backslash] = true ∧ slash ∉ text.take 4)
  not_device : startsWith (text.drop 2) [dot, backslash] = false

/-- What reading a drive or a share has found. -/
theorem parseVolume_cases {text : Bytes} {volume : Volume}
    (h : parseVolume text = some volume) (hkind : isDriveOrShare volume = true) :
    (∃ drive, volume = .disk drive ∧ parseDrive text = some drive) ∨
      ∃ server share, volume = .unc server share ∧ NetText text ∧ server ≠ [] ∧ share ≠ [] ∧
        (nextComponent isSep (text.drop 2)).1 = server ∧
        (nextComponent isSep (nextComponent isSep (text.drop 2)).2).1 = share := by
  unfold parseVolume at h
  dsimp only at h
  split_ifs at h with hnet hverbatim _ hdevice hparts
  · cases h
    cases hkind
  · split at h
    · cases h
      cases hkind
    · cases h
      cases hkind
  · cases h
    cases hkind
  · cases h
    exact Or.inr ⟨_, _, rfl, ⟨hnet, hverbatim, Bool.eq_false_iff.mpr hdevice⟩, hparts.1,
      hparts.2, rfl, rfl⟩
  · rw [Option.map_eq_some_iff] at h
    rcases h with ⟨drive, hdrive, rfl⟩
    exact Or.inl ⟨drive, rfl, hdrive⟩

/-! ## The text of a drive -/

theorem parseDrive_eq_some_iff {text : Bytes} {drive : UInt8} :
    parseDrive text = some drive ↔
      ∃ letter rest, text = letter :: colon :: rest ∧ driveLetter letter = some drive := by
  constructor
  · intro h
    unfold parseDrive at h
    split at h
    · rename_i letter c rest
      split_ifs at h with hcolon
      rw [hcolon]
      exact ⟨letter, rest, rfl, h⟩
    · cases h
  · intro h
    rcases h with ⟨letter, rest, rfl, hdrive⟩
    rw [parseDrive, if_pos rfl, hdrive]

/-- A text that begins with a drive is read as that drive, whatever follows. -/
theorem parseVolume_of_parseDrive {text : Bytes} {drive : UInt8}
    (h : parseDrive text = some drive) : parseVolume text = some (.disk drive) := by
  rcases parseDrive_eq_some_iff.mp h with ⟨letter, rest, rfl, -⟩
  have hnet : startsWith (letter :: colon :: rest) [backslash, backslash] = false := by
    simp [startsWith, colon, slash, backslash]
  rw [parseVolume, if_neg (by rw [hnet]; exact Bool.noConfusion), h, Option.map_some]

/-! ## The text of a share -/

section Components

variable {sep : UInt8 → Bool}

/-- A text is its first component and what is behind that, which begins with a separator. -/
theorem nextComponent_split (sep : UInt8 → Bool) (text : Bytes) :
    (∀ b ∈ (nextComponent sep text).1, sep b = false) ∧
      ∃ behind, text = (nextComponent sep text).1 ++ behind ∧
        (nextComponent sep text).2 = behind.drop 1 ∧ ∀ b ∈ behind.head?, sep b = true := by
  constructor
  · intro b hb
    simpa using List.mem_takeWhile_imp hb
  · refine ⟨text.dropWhile (!sep ·), List.takeWhile_append_dropWhile.symm, rfl, ?_⟩
    intro b hb
    have hne : text.dropWhile (!sep ·) ≠ [] := by
      intro hnil
      rw [hnil] at hb
      cases hb
    have hhead := List.head_dropWhile_not (!sep ·) hne
    rw [List.head?_eq_some_head hne, Option.mem_some_iff] at hb
    rw [hb] at hhead
    simpa using hhead

theorem not_sep_of_plain {front : Bytes} (h : ∀ b ∈ front, sep b = false) :
    ∀ b ∈ front, (!sep b) = true := by
  intro b hb
  rw [h b hb]
  rfl

theorem nextComponent_append {front rest : Bytes} {s : UInt8}
    (hfront : ∀ b ∈ front, sep b = false) (hs : sep s = true) :
    nextComponent sep (front ++ s :: rest) = (front, rest) := by
  have hall := not_sep_of_plain hfront
  rw [nextComponent, List.takeWhile_append_of_pos hall, List.dropWhile_append_of_pos hall]
  simp [hs]

theorem nextComponent_fst {front rest : Bytes} (hfront : ∀ b ∈ front, sep b = false)
    (hrest : ∀ b ∈ rest.head?, sep b = true) : (nextComponent sep (front ++ rest)).1 = front := by
  cases rest with
  | nil =>
      rw [nextComponent, List.takeWhile_append_of_pos (not_sep_of_plain hfront),
        List.takeWhile_nil, List.append_nil]
  | cons s rest => rw [nextComponent_append hfront (hrest s rfl)]

end Components

theorem startsWith_congr {text text' : Bytes} (h : text'.take 2 = text.take 2) (a b : UInt8) :
    startsWith text' [a, b] = startsWith text [a, b] :=
  congrArg (fun bytes => decide (List.map _ bytes = [a, b])) h

/-- The first four bytes decide. -/
theorem netText_append_iff {text : Bytes} (rest : Bytes) (h : 4 ≤ text.length) :
    NetText (text ++ rest) ↔ NetText text := by
  have htake : (text ++ rest).take 2 = text.take 2 :=
    List.take_append_of_le_length (Nat.le_trans (by decide) h)
  have hdrop : ((text ++ rest).drop 2).take 2 = (text.drop 2).take 2 := by
    rw [List.take_drop, List.take_drop, List.take_append_of_le_length h]
  rw [netText_iff, netText_iff, startsWith_congr htake, startsWith_congr hdrop,
    startsWith_congr hdrop, List.take_append_of_le_length h]

/-- The text of a share: a server, a separator and the share. -/
structure ShareText (lead server share : Bytes) : Prop extends NetText lead where
  server_ne : server ≠ []
  share_ne : share ≠ []
  server_plain : ∀ b ∈ server, isSep b = false
  share_plain : ∀ b ∈ share, isSep b = false
  parts : ∃ s, isSep s = true ∧ lead.drop 2 = server ++ s :: share

theorem ShareText.length_eq {lead server share : Bytes} (h : ShareText lead server share) :
    lead.length = volumeLen (.unc server share) := by
  rcases h.parts with ⟨s, -, hparts⟩
  have hlen := congrArg List.length hparts
  rw [List.length_drop, List.length_append, List.length_cons] at hlen
  simp only [volumeLen, shareLen, if_neg h.share_ne]
  omega

theorem ShareText.four_le {lead server share : Bytes} (h : ShareText lead server share) :
    4 ≤ lead.length := by
  have hserver := List.length_pos_of_ne_nil h.server_ne
  rw [h.length_eq]
  simp only [volumeLen, shareLen, if_neg h.share_ne]
  omega

/-- It is read as that share whatever follows behind a separator. -/
theorem ShareText.parseVolume {lead server share rest : Bytes}
    (h : ShareText lead server share) (hrest : ∀ b ∈ rest.head?, isSep b = true) :
    parseVolume (lead ++ rest) = some (.unc server share) := by
  rcases h.parts with ⟨s, hs, hparts⟩
  have hnet := (netText_append_iff rest h.four_le).mpr h.toNetText
  have hdrop : (lead ++ rest).drop 2 = server ++ s :: (share ++ rest) := by
    rw [List.drop_append_of_le_length (Nat.le_trans (by decide) h.four_le), hparts,
      List.append_assoc, List.cons_append]
  unfold WindowsPath.parseVolume
  dsimp only
  rw [if_pos hnet.net, if_neg hnet.not_verbatim, if_neg (Bool.eq_false_iff.mp hnet.not_device),
    hdrop, nextComponent_append h.server_plain hs]
  dsimp only
  rw [nextComponent_fst h.share_plain hrest, if_pos ⟨h.server_ne, h.share_ne⟩]

/-- A server and a share, with what follows the share. -/
theorem exists_serverShare {text server share : Bytes} (hne : share ≠ [])
    (hserver : (nextComponent isSep text).1 = server)
    (hshare : (nextComponent isSep (nextComponent isSep text).2).1 = share) :
    ∃ s rest, isSep s = true ∧ text = server ++ s :: (share ++ rest) ∧
      (∀ b ∈ server, isSep b = false) ∧ (∀ b ∈ share, isSep b = false) ∧
      ∀ b ∈ rest.head?, isSep b = true := by
  rcases nextComponent_split isSep text with ⟨hserverPlain, behind, htext, hbehind, hsep⟩
  rw [hserver] at hserverPlain htext
  rw [hbehind] at hshare
  cases behind with
  | nil => exact (hne hshare.symm).elim
  | cons s behind =>
      rcases nextComponent_split isSep behind with ⟨hsharePlain, rest, hsplit, -, hrest⟩
      rw [List.drop_one, List.tail_cons] at hshare
      rw [hshare] at hsharePlain hsplit
      rw [hsplit] at htext
      exact ⟨s, rest, hsep s rfl, htext, hserverPlain, hsharePlain, hrest⟩

theorem NetText.exists_shareText {text server share : Bytes} (hnet : NetText text)
    (hserverNe : server ≠ []) (hshareNe : share ≠ [])
    (hserver : (nextComponent isSep (text.drop 2)).1 = server)
    (hshare : (nextComponent isSep (nextComponent isSep (text.drop 2)).2).1 = share) :
    ∃ lead rest, text = lead ++ rest ∧ ShareText lead server share ∧
      ∀ b ∈ rest.head?, isSep b = true := by
  rcases exists_serverShare hshareNe hserver hshare with
    ⟨s, rest, hs, hparts, hserverPlain, hsharePlain, hrest⟩
  have htext : text = text.take 2 ++ (server ++ s :: share) ++ rest := by
    rw [List.append_assoc, List.append_assoc, List.cons_append, ← hparts, List.take_append_drop]
  have htake : (text.take 2).length = 2 := by
    have hlen := congrArg List.length hparts
    rw [List.length_drop, List.length_append, List.length_cons] at hlen
    rw [List.length_take]
    omega
  have hlead : (text.take 2 ++ (server ++ s :: share)).drop 2 = server ++ s :: share := by
    rw [List.drop_append_of_le_length (Nat.le_of_eq htake.symm),
      List.drop_eq_nil_of_le (Nat.le_of_eq htake), List.nil_append]
  have hfour : 4 ≤ (text.take 2 ++ (server ++ s :: share)).length := by
    have hserverPos := List.length_pos_of_ne_nil hserverNe
    have hsharePos := List.length_pos_of_ne_nil hshareNe
    rw [List.length_append, List.length_append, List.length_cons, htake]
    omega
  rw [htext, netText_append_iff rest hfour] at hnet
  exact ⟨_, rest, htext, ⟨hnet, hserverNe, hshareNe, hserverPlain, hsharePlain, s, hs, hlead⟩,
    hrest⟩

/-! ## Texts of volumes -/

/-- What can follow a volume: anything behind a drive, a separator first behind another. -/
def Follows (volume : Volume) (rest : Bytes) : Prop :=
  isDisk volume = true ∨ ∀ b ∈ rest.head?, isSep b = true

theorem Follows.backslash {volume : Volume} {rest more : Bytes} (h : Follows volume rest) :
    Follows volume (rest ++ backslash :: more) := by
  cases rest with
  | nil =>
      right
      intro b hb
      cases hb
      decide
  | cons b rest => exact h

theorem Follows.trailing {volume : Volume} {front more : Bytes} {s : UInt8}
    (h : Follows volume (front ++ [s])) : Follows volume (front ++ s :: more) := by
  cases front with
  | nil => exact h
  | cons b front => exact h

/-- The text of a volume, read as that volume whatever follows it. -/
structure VolumeText (lead : Bytes) (volume : Volume) : Prop where
  length_eq : lead.length = volumeLen volume
  last : ∃ b, lead.getLast? = some b ∧ isSep b = false
  not_verbatim : isVerbatim volume = false
  parse : ∀ rest, Follows volume rest → parseVolume (lead ++ rest) = some volume

theorem volumeText_disk {letter drive : UInt8} (h : driveLetter letter = some drive) :
    VolumeText [letter, colon] (.disk drive) where
  length_eq := rfl
  last := ⟨colon, rfl, by decide⟩
  not_verbatim := rfl
  parse := fun rest _ =>
    parseVolume_of_parseDrive (parseDrive_eq_some_iff.mpr ⟨letter, rest, rfl, h⟩)

theorem ShareText.volumeText {lead server share : Bytes} (h : ShareText lead server share) :
    VolumeText lead (.unc server share) where
  length_eq := h.length_eq
  last := by
    rcases h.parts with ⟨s, -, hparts⟩
    have hlead : lead = lead.take 2 ++ (server ++ [s]) ++ share := by
      rw [List.append_assoc, List.append_assoc, List.singleton_append, ← hparts,
        List.take_append_drop]
    have hlast : lead.getLast? = some (share.getLast h.share_ne) := by
      rw [congrArg List.getLast? hlead, List.getLast?_append,
        List.getLast?_eq_some_getLast h.share_ne, Option.some_or]
    exact ⟨_, hlast, h.share_plain _ (List.getLast_mem h.share_ne)⟩
  not_verbatim := rfl
  parse := by
    intro rest hrest
    rcases hrest with hdisk | hsep
    · cases hdisk
    · exact h.parseVolume hsep

/-- A directory on a drive or a share is the text of its volume and what follows. -/
theorem exists_volumeText {dir : Bytes} {volume : Volume} (hvolume : parseVolume dir = some volume)
    (hkind : isDriveOrShare volume = true) :
    ∃ lead rest, dir = lead ++ rest ∧ VolumeText lead volume ∧ Follows volume rest := by
  rcases parseVolume_cases hvolume hkind with
    ⟨drive, rfl, hdrive⟩ | ⟨server, share, rfl, hnet, hserverNe, hshareNe, hserver, hshare⟩
  · rcases parseDrive_eq_some_iff.mp hdrive with ⟨letter, rest, rfl, hletter⟩
    exact ⟨[letter, colon], rest, rfl, volumeText_disk hletter, Or.inl rfl⟩
  · rcases hnet.exists_shareText hserverNe hshareNe hserver hshare with
      ⟨lead, rest, hdir, hlead, hrest⟩
    exact ⟨lead, rest, hdir, hlead.volumeText, Or.inr hrest⟩

section Texts

variable {lead rest : Bytes} {volume : Volume}

theorem VolumeText.ofText (h : VolumeText lead volume) (hrest : Follows volume rest) :
    ofText (lead ++ rest) = readBehind (some volume) rest := by
  rw [ofText_eq_readBehind (h.parse rest hrest) h.not_verbatim, ← h.length_eq, List.drop_left]

/-- Behind the text of a volume a separator is needed, but not behind a bare drive or
another separator. -/
theorem VolumeText.needsSep_iff (h : VolumeText lead volume) (hrest : Follows volume rest) :
    needsSep (lead ++ rest) = true ↔
      (rest = [] → isDisk volume = false) ∧ ∀ s ∈ rest.getLast?, isSep s = false := by
  rw [needsSep, h.parse rest hrest, Option.any_some, ← h.length_eq, List.length_append]
  rcases List.eq_nil_or_concat' rest with rfl | ⟨front, s, rfl⟩
  · rcases h.last with ⟨b, hlast, hb⟩
    simp [hlast, hb]
  · rw [← List.append_assoc, List.getLast?_concat, List.getLast?_concat]
    simp

end Texts

/-- A plain name put behind the text of a directory is read as the directory joined with
the name. -/
theorem ofText_pushText {dir name : Bytes} {volume : Volume} (h : PlainName name)
    (hvolume : parseVolume dir = some volume) (hkind : isDriveOrShare volume = true) :
    ofText (pushText dir name) = (ofText dir).join (ofText name) := by
  rcases exists_volumeText hvolume hkind with ⟨lead, rest, rfl, hlead, hrest⟩
  rw [join_ofText_plainName _ h, hlead.ofText hrest, pushText, List.append_assoc,
    List.append_assoc]
  by_cases hneeds : needsSep (lead ++ rest) = true
  · have hroot := ((hlead.needsSep_iff hrest).mp hneeds).1
    rw [if_pos hneeds, hlead.ofText hrest.backslash]
    apply readBehind_backslash h
    intro hnil
    rw [Option.any_some, hroot hnil]
    rfl
  · rw [if_neg hneeds]
    rw [hlead.needsSep_iff hrest] at hneeds
    rcases List.eq_nil_or_concat' rest with rfl | ⟨front, s, rfl⟩
    · -- Without anything behind it only a bare drive takes the name as it is.
      have hdisk : isDisk volume = true := by simpa using hneeds
      rw [List.nil_append, hlead.ofText (Or.inl hdisk)]
      cases volume with
      | disk drive => exact readBehind_bare h
      | _ => cases hdisk
    · have hs : isSep s = true := by simpa using hneeds
      rw [List.append_assoc, List.singleton_append, hlead.ofText hrest.trailing]
      exact readBehind_trailing h hs

end WindowsPath
end Machine
