import Upxz.Machine.Exec

/-!
# Machine - Unix path components

Paths are byte strings without further structure; `components` reads them the
way `std::path` does on Unix.  Repeated and trailing slashes vanish, a `.`
counts only at the very start, and `..` is kept.

Main results:

- Theorem `normalName_of_fileName`: a file name is one normal component.
- Theorem `components_of_normalName`: a normal name is a path of one component,
  and that component is its file name.
-/

namespace Machine

/-- A path as the operating system sees it. -/
abbrev Path := Bytes

/-- The byte `/`. -/
def slash : UInt8 := 0x2F

/-- The byte `.`. -/
def dot : UInt8 := 0x2E

/-- `std::path::Component`, less the Windows prefixes. -/
inductive Component where
  | rootDir
  | curDir
  | parentDir
  | normal (name : Bytes)
deriving DecidableEq, Repr

/-- The component one slash-separated segment stands for, if any. -/
def segmentComponent (segment : Bytes) : Option Component :=
  if segment = [] ∨ segment = [dot] then none
  else if segment = [dot, dot] then some .parentDir
  else some (.normal segment)

/-- `Path::components`. -/
def components (p : Path) : List Component :=
  let segments := p.splitOn slash
  let body := segments.filterMap segmentComponent
  if p.head? = some slash then .rootDir :: body
  else if segments.head? = some [dot] then .curDir :: body
  else body

/-- `Path::file_name`: the last component, when it is a normal one. -/
def fileName (p : Path) : Option Bytes :=
  match (components p).getLast? with
  | some (.normal name) => some name
  | _ => none

/-- `Path::join`. -/
def join (dir path : Path) : Path :=
  if path.head? = some slash then path
  else if dir = [] ∨ dir.getLast? = some slash then dir ++ path
  else dir ++ slash :: path

/-- A name that is one normal component: it cannot leave its directory. -/
structure NormalName (name : Bytes) : Prop where
  ne_nil : name ≠ []
  no_slash : slash ∉ name
  ne_dot : name ≠ [dot]
  ne_dotdot : name ≠ [dot, dot]

/-! ## File names are normal -/

/-- Splitting leaves no separator in any part. -/
theorem not_mem_of_mem_splitOn {α : Type} [BEq α] [LawfulBEq α] {a : α} {xs part : List α}
    (h : part ∈ xs.splitOn a) : a ∉ part := by
  induction xs generalizing part with
  | nil =>
      rw [List.splitOn_nil, List.mem_singleton] at h
      simp [h]
  | cons x xs ih =>
      rw [List.splitOn_cons_eq_if_modifyHead] at h
      split_ifs at h with hx
      · rcases List.mem_cons.mp h with rfl | hmem
        · simp
        · exact ih hmem
      · cases hsplit : xs.splitOn a with
        | nil => exact (List.splitOn_ne_nil a xs hsplit).elim
        | cons first rest =>
            rw [hsplit, List.modifyHead_cons] at h
            rcases List.mem_cons.mp h with rfl | hmem
            · have hfirst : a ∉ first := ih (by rw [hsplit]; exact List.mem_cons_self)
              have hne : a ≠ x := by
                rintro rfl
                simp at hx
              simp [hne, hfirst]
            · exact ih (by rw [hsplit]; exact List.mem_cons_of_mem _ hmem)

/-- What stands in a part stood in the whole. -/
theorem subset_of_mem_splitOn {α : Type} [BEq α] [LawfulBEq α] {a : α} {xs part : List α}
    (h : part ∈ xs.splitOn a) : part ⊆ xs := by
  induction xs generalizing part with
  | nil =>
      rw [List.splitOn_nil, List.mem_singleton] at h
      simp [h]
  | cons x xs ih =>
      rw [List.splitOn_cons_eq_if_modifyHead] at h
      split_ifs at h with hx
      · rcases List.mem_cons.mp h with rfl | hmem
        · exact List.nil_subset _
        · exact List.Subset.trans (ih hmem) (List.subset_cons_self x xs)
      · cases hsplit : xs.splitOn a with
        | nil => exact (List.splitOn_ne_nil a xs hsplit).elim
        | cons first rest =>
            rw [hsplit, List.modifyHead_cons] at h
            rcases List.mem_cons.mp h with rfl | hmem
            · have hfirst : first ⊆ xs := ih (by rw [hsplit]; exact List.mem_cons_self)
              exact List.cons_subset_cons x hfirst
            · have hpart := ih (by rw [hsplit]; exact List.mem_cons_of_mem _ hmem)
              exact List.Subset.trans hpart (List.subset_cons_self x xs)

theorem normalName_of_segment {segment name : Bytes} (hslash : slash ∉ segment)
    (h : segmentComponent segment = some (.normal name)) : NormalName name := by
  unfold segmentComponent at h
  split_ifs at h with h₁ h₂
  · cases h
  cases h
  exact
    { ne_nil := fun hnil => h₁ (Or.inl hnil)
      no_slash := hslash
      ne_dot := fun hdot => h₁ (Or.inr hdot)
      ne_dotdot := h₂ }

/-- A normal component of a path is one of its segments. -/
theorem mem_splitOn_of_mem_components {p : Path} {name : Bytes}
    (h : .normal name ∈ components p) :
    name ∈ p.splitOn slash ∧ segmentComponent name = some (.normal name) := by
  have hbody : .normal name ∈ (p.splitOn slash).filterMap segmentComponent := by
    unfold components at h
    dsimp only at h
    split_ifs at h
    · simpa using h
    · simpa using h
    · exact h
  rcases List.mem_filterMap.mp hbody with ⟨segment, hmem, hsegment⟩
  have hsame : segment = name := by
    have hcomponent := hsegment
    unfold segmentComponent at hcomponent
    split_ifs at hcomponent
    · cases hcomponent
    · cases hcomponent
      rfl
  rw [hsame] at hmem hsegment
  exact ⟨hmem, hsegment⟩

/-- Every normal component of a path is a normal name. -/
theorem normalName_of_mem_components {p : Path} {name : Bytes}
    (h : .normal name ∈ components p) : NormalName name := by
  rcases mem_splitOn_of_mem_components h with ⟨hmem, hsegment⟩
  exact normalName_of_segment (not_mem_of_mem_splitOn hmem) hsegment

/-- A file name is one normal component. -/
theorem normalName_of_fileName {p : Path} {name : Bytes} (h : fileName p = some name) :
    NormalName name := by
  unfold fileName at h
  split at h
  · rename_i last hlast
    simp only [Option.some.injEq] at h
    subst h
    exact normalName_of_mem_components (List.mem_of_getLast? hlast)
  · cases h

/-- A file name is part of its path. -/
theorem subset_of_fileName {p : Path} {name : Bytes} (h : fileName p = some name) :
    name ⊆ p := by
  unfold fileName at h
  split at h
  · rename_i last hlast
    cases h
    exact subset_of_mem_splitOn (mem_splitOn_of_mem_components (List.mem_of_getLast? hlast)).1
  · cases h

/-! ## Joined paths -/

/-- What is joined to a directory has a slash. -/
theorem slash_mem_join {dir : Path} (hdir : dir ≠ []) (path : Path) : slash ∈ join dir path := by
  unfold join
  split_ifs with habsolute hends
  · exact List.mem_of_mem_head? habsolute
  · exact List.mem_append_left _ (List.mem_of_getLast? (hends.resolve_left hdir))
  · simp

/-! ## Normal names are paths of one component -/

theorem components_of_normalName {name : Bytes} (h : NormalName name) :
    components name = [.normal name] := by
  have hsplit : name.splitOn slash = [name] := List.splitOn_eq_singleton h.no_slash
  have hhead : name.head? ≠ some slash := fun hslash =>
    h.no_slash (List.mem_of_mem_head? hslash)
  have hsegment : segmentComponent name = some (.normal name) := by
    simp [segmentComponent, h.ne_nil, h.ne_dot, h.ne_dotdot]
  simp [components, hsplit, hhead, h.ne_dot, hsegment]

@[simp]
theorem fileName_of_normalName {name : Bytes} (h : NormalName name) :
    fileName name = some name := by
  simp [fileName, components_of_normalName h]

end Machine
