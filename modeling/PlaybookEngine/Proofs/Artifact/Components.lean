import PlaybookEngine.Proofs.Artifact.Places

namespace PlaybookEngine

/-- A component of a path. -/
inductive Component
  | root
  | here
  | up
  | name (text : String)
  deriving DecidableEq

namespace Component

/-- What a part between slashes stands for; empty parts and single points vanish. -/
def ofPart? (part : List Char) : Option Component :=
  if part = [] ∨ part = ['.'] then none
  else if part = ['.', '.'] then some .up
  else some (.name (.ofList part))

/-- What the first part stands for, with other parts behind it. -/
def ofFront? (first : List Char) (rest : List (List Char)) : Option Component :=
  if first = ['.'] then some .here
  else if first = [] ∧ rest ≠ [] then some .root
  else ofPart? first

def ofParts : List (List Char) → List Component
  | [] => []
  | first :: rest => (ofFront? first rest).toList ++ rest.filterMap ofPart?

def ofPath (path : String) : List Component := ofParts (Text.splitOn '/' path.toList)

variable {part first : List Char} {rest parts more : List (List Char)} {key root : String}

theorem ofPart?_nil : ofPart? [] = none := rfl

theorem ofFront?_append (first : List Char) (rest : List (List Char)) (hmore : more ≠ []) :
    ofFront? first (rest ++ more) = ofFront? first (rest ++ [[]]) := by
  simp [ofFront?, hmore]

theorem ofParts_append (hparts : parts ≠ []) (hmore : more ≠ []) :
    ofParts (parts ++ more) = ofParts (parts ++ [[]]) ++ more.filterMap ofPart? := by
  obtain ⟨first, rest, rfl⟩ := List.exists_cons_of_ne_nil hparts
  simp [ofParts, ofFront?_append first rest hmore, ofPart?_nil]

/-- A slash behind a path changes nothing. -/
theorem ofParts_concat_nil (h : parts ≠ [[]]) : ofParts (parts ++ [[]]) = ofParts parts := by
  cases parts with
  | nil => rfl
  | cons first rest =>
    have front : ofFront? first (rest ++ [[]]) = ofFront? first rest := by
      by_cases hfirst : first = []
      · have hrest : rest ≠ [] := fun hrest => h (by rw [hfirst, hrest])
        simp [ofFront?, hrest]
      · simp [ofFront?, hfirst]
    rw [List.cons_append, ofParts, ofParts, front, List.filterMap_append]
    simp [ofPart?_nil]

theorem ofParts_of_ne (hempty : first ≠ []) (hpoint : first ≠ ['.']) :
    ofParts (first :: rest) = (first :: rest).filterMap ofPart? := by
  have front : ofFront? first rest = ofPart? first := by simp [ofFront?, hpoint, hempty]
  rw [ofParts, front, List.filterMap_cons]
  cases ofPart? first <;> rfl

theorem filterMap_ofPart? (h : ['.', '.'] ∉ parts) :
    parts.filterMap ofPart? =
      (parts.filter fun part => part ≠ [] ∧ part ≠ ['.']).map fun part => .name (.ofList part) := by
  induction parts with
  | nil => rfl
  | cons part rest ih =>
    rw [List.mem_cons, not_or] at h
    rw [List.filterMap_cons, List.filter_cons, ih h.2]
    by_cases hpart : part = [] ∨ part = ['.']
    · have vanished : ¬ (part ≠ [] ∧ part ≠ ['.']) := fun hh => hpart.elim hh.1 hh.2
      simp [ofPart?, hpart, vanished]
    · have named : part ≠ [] ∧ part ≠ ['.'] := not_or.mp hpart
      simp [ofPart?, named, Ne.symm h.1]

end Component

namespace Component

theorem ofPart?_eq_up_iff : ofPart? part = some .up ↔ part = ['.', '.'] := by
  unfold ofPart?
  split
  · rename_i hpart
    rcases hpart with rfl | rfl
    · decide
    · decide
  · split
    · rename_i hpart
      exact iff_of_true rfl hpart
    · rename_i hpart
      exact iff_of_false nofun hpart

theorem ofPart?_ne_here (part : List Char) : ofPart? part ≠ some .here := by
  unfold ofPart?
  split
  · nofun
  · split
    · nofun
    · nofun

theorem ofFront?_eq_up_iff : ofFront? first rest = some .up ↔ first = ['.', '.'] := by
  unfold ofFront?
  split
  · rename_i hpoint
    subst hpoint
    decide
  · split
    · rename_i hempty
      rw [hempty.1]
      decide
    · exact ofPart?_eq_up_iff

theorem ofFront?_eq_here_iff : ofFront? first rest = some .here ↔ first = ['.'] := by
  unfold ofFront?
  split
  · rename_i hpoint
    exact iff_of_true rfl hpoint
  · rename_i hpoint
    refine iff_of_false ?_ hpoint
    split
    · nofun
    · exact ofPart?_ne_here first

theorem up_mem_ofParts_iff : .up ∈ ofParts parts ↔ ['.', '.'] ∈ parts := by
  cases parts with
  | nil => exact iff_of_false List.not_mem_nil List.not_mem_nil
  | cons first rest =>
    rw [ofParts, List.mem_append, Option.mem_toList, ofFront?_eq_up_iff, List.mem_filterMap,
      List.mem_cons]
    simp only [ofPart?_eq_up_iff, exists_eq_right]
    exact or_congr_left eq_comm

theorem head?_ofParts_eq_here_iff :
    (ofParts (first :: rest)).head? = some .here ↔ first = ['.'] := by
  have later : (rest.filterMap ofPart?).head? ≠ some .here := by
    intro hhead
    obtain ⟨part, -, hpart⟩ := List.mem_filterMap.mp (List.mem_of_head? hhead)
    exact ofPart?_ne_here part hpart
  have front : ofFront? first rest = some .here ↔ first = ['.'] := ofFront?_eq_here_iff
  rw [← front, ofParts]
  cases ofFront? first rest with
  | none => simpa using later
  | some c => simp

end Component

namespace Text

theorem front_eq_nil_iff {sep : Char} {cs first : List Char} {rest : List (List Char)}
    (h : splitOn sep cs = first :: rest) : first = [] ↔ cs = [] ∨ cs.head? = some sep := by
  cases cs with
  | nil =>
    cases h
    exact iff_of_true rfl (.inl rfl)
  | cons c cs =>
    rw [splitOn] at h
    by_cases hc : c = sep
    · rw [if_pos hc] at h
      cases h
      exact iff_of_true rfl (.inr (congrArg some hc))
    · rw [if_neg hc] at h
      cases hrest : splitOn sep cs with
      | nil => exact absurd hrest (splitOn_ne_nil sep cs)
      | cons part parts =>
        rw [hrest] at h
        cases h
        simp [hc]

end Text

namespace StoragePath

open Component

variable {key root : String}

/-- The first part of a safe key is a name, and no part leads up. -/
theorem isSafe_iff_parts {key : List Char} :
    isSafe key = true ↔ ∃ first rest, Text.splitOn '/' key = first :: rest ∧
      first ≠ [] ∧ first ≠ ['.'] ∧ ['.', '.'] ∉ first :: rest := by
  unfold isSafe
  split
  · rename_i hnil
    exact absurd hnil (Text.splitOn_ne_nil '/' key)
  · rename_i first rest hparts
    simp [hparts, and_assoc]

theorem ofPath_of_isSafe (h : isSafe key.toList = true) :
    ofPath key = (components key.toList).map fun part => .name (.ofList part) := by
  obtain ⟨first, rest, hparts, hempty, hpoint, hup⟩ := isSafe_iff_parts.mp h
  rw [ofPath, components, hparts, ofParts_of_ne hempty hpoint, filterMap_ofPart? hup]

/-- A key is unsafe that is empty, starts with a slash or at a point, or leads up somewhere. -/
theorem not_isSafe_iff :
    ¬ isSafe key.toList = true ↔ key = "" ∨ key.toList.head? = some '/' ∨
      (ofPath key).head? = some .here ∨ .up ∈ ofPath key := by
  obtain ⟨first, rest, hparts⟩ := List.exists_cons_of_ne_nil (Text.splitOn_ne_nil '/' key.toList)
  have safe : isSafe key.toList = true ↔
      first ≠ [] ∧ first ≠ ['.'] ∧ ['.', '.'] ∉ first :: rest := by
    simp [isSafe, hparts, and_assoc]
  rw [safe, ofPath, hparts, head?_ofParts_eq_here_iff, up_mem_ofParts_iff, ← or_assoc,
    ← String.toList_eq_nil_iff, ← Text.front_eq_nil_iff hparts]
  tauto

/-- A path with a key behind it, with a slash between them unless there is one; an absolute key
stays as it is. -/
def joined (root key : String) : String :=
  if key.toList.head? = some '/' then key
  else if root = "" ∨ root.toList.getLast? = some '/' then root ++ key
  else root ++ "/" ++ key

def pathFor (root key : String) : Except StorageError String :=
  if isSafe key.toList then .ok (joined root key) else .error (.invalidKey key)

/-- Joined to a path, a safe key adds its names. -/
theorem ofPath_joined (h : isSafe key.toList = true) (root : String) :
    ofPath (joined root key) = ofPath root ++ ofPath key := by
  obtain ⟨first, rest, hparts, hempty, hpoint, hup⟩ := isSafe_iff_parts.mp h
  have relative : ¬ key.toList.head? = some '/' := fun hhead =>
    hempty ((Text.front_eq_nil_iff hparts).mpr (.inr hhead))
  have behind (front : List Char) : ofParts (Text.splitOn '/' (front ++ '/' :: key.toList)) =
      ofParts (Text.splitOn '/' (front ++ ['/'])) ++ ofPath key := by
    have parts : ofPath key = (Text.splitOn '/' key.toList).filterMap ofPart? := by
      rw [ofPath, hparts]
      exact ofParts_of_ne hempty hpoint
    rw [Text.splitOn_append_cons, Text.splitOn_append_cons, parts]
    exact ofParts_append (Text.splitOn_ne_nil '/' front) (Text.splitOn_ne_nil '/' key.toList)
  unfold joined
  rw [if_neg relative]
  split
  · rename_i hend
    rcases hend with rfl | hend
    · rw [String.empty_append]
      rfl
    · obtain ⟨front, hroot⟩ := List.getLast?_eq_some_iff.mp hend
      have whole := behind front
      rw [← hroot] at whole
      rw [ofPath, String.toList_append, hroot, List.append_assoc]
      exact whole
  · rename_i hend
    have slash : ofParts (Text.splitOn '/' (root.toList ++ ['/'])) = ofPath root := by
      rw [Text.splitOn_append_cons]
      refine ofParts_concat_nil fun hsplit => hend (.inl ?_)
      exact String.toList_eq_nil_iff.mp (Text.splitOn_eq_singleton hsplit).2.symm
    rw [ofPath, String.toList_append, String.toList_append, List.append_assoc]
    exact (behind root.toList).trans (congrArg (· ++ ofPath key) slash)

end StoragePath

namespace FileStore

open Component StoragePath

variable {key root : String} {p : Path}

/-- A name leads to something in the directory that it stands in. -/
def Ordinary (name : String) : Prop := IsName name.toList ∧ '/' ∉ name.toList

theorem ordinary_of_path (h : FileStore.path key = .ok p) : p ≠ [] ∧ ∀ name ∈ p, Ordinary name := by
  obtain ⟨hsafe, rfl⟩ := path_eq_ok_iff.mp h
  obtain ⟨first, rest, hparts, hempty, hpoint, hup⟩ := isSafe_iff_parts.mp hsafe
  constructor
  · rw [Ne, List.map_eq_nil_iff, components, hparts,
      List.filter_cons_of_pos (by simp [hempty, hpoint])]
    exact List.cons_ne_nil _ _
  · refine List.forall_mem_map.mpr fun part hpart => ?_
    rw [components, List.mem_filter, decide_eq_true_eq] at hpart
    obtain ⟨hmem, hne, hne'⟩ := hpart
    rw [Ordinary, String.toList_ofList]
    exact ⟨⟨hne, hne', fun h => hup (hparts ▸ h ▸ hmem)⟩, Text.not_mem_of_mem_splitOn hmem⟩

/-- The path is the root with the names of the key behind it. -/
theorem pathFor_of_path (h : FileStore.path key = .ok p) (root : String) :
    pathFor root key = .ok (joined root key) ∧
      ofPath (joined root key) = ofPath root ++ p.map .name := by
  obtain ⟨hsafe, rfl⟩ := path_eq_ok_iff.mp h
  refine ⟨if_pos hsafe, ?_⟩
  rw [ofPath_joined hsafe, ofPath_of_isSafe hsafe, List.map_map]
  rfl

end FileStore

end PlaybookEngine
