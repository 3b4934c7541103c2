import PlaybookEngine.Proofs.Artifact.Entries

namespace PlaybookEngine

namespace Text

theorem join_splitOn (cs : List Char) :
    join "/" ((splitOn '/' cs).map String.ofList) = String.ofList cs := by
  induction cs with
  | nil => rfl
  | cons c cs ih =>
    rw [splitOn]
    cases hparts : splitOn '/' cs with
    | nil => exact absurd hparts (splitOn_ne_nil '/' cs)
    | cons part parts =>
      rw [hparts] at ih
      by_cases hc : c = '/'
      · rw [if_pos hc]
        subst hc
        apply String.toList_inj.mp
        have whole := congrArg String.toList ih
        simp only [List.map_cons, join] at whole ⊢
        simp [whole]
      · rw [if_neg hc]
        apply String.toList_inj.mp
        have whole := congrArg String.toList ih
        cases parts with
        | nil => simpa [join] using whole
        | cons next parts => simpa [join] using whole

/-- A text that ends with a separator has nothing behind it. -/
theorem getLast?_splitOn {sep : Char} {cs : List Char} (h : cs.getLast? = some sep) :
    (splitOn sep cs).getLast? = some [] := by
  obtain ⟨front, rfl⟩ := List.getLast?_eq_some_iff.mp h
  rw [splitOn_append_cons]
  exact List.getLast?_concat

end Text

namespace Path

/-- A place for content or metadata. -/
def IsEntry (p : Path) : Prop :=
  (∃ capability status name, p = [capability, "generated", status, name]) ∨
    ∃ capability name, p = [capability, "metadata", name]

/-- A directory on the way to some place. -/
def IsFolder (p : Path) : Prop :=
  p.length ≤ 2 ∨ ∃ capability status, p = [capability, "generated", status]

theorem IsEntry.not_isFolder {p : Path} (h : p.IsEntry) : ¬ p.IsFolder := by
  rcases h with ⟨c, s, n, rfl⟩ | ⟨c, n, rfl⟩
  · simp [IsFolder]
  · simp [IsFolder]

theorem isFolder_of_mem_ancestors {p a : Path} (hp : p.IsEntry) (ha : a ∈ ancestors p) :
    a.IsFolder := by
  rcases hp with ⟨c, s, n, rfl⟩ | ⟨c, n, rfl⟩
  · simp only [ancestors, List.map_cons, List.map_nil, List.mem_cons, List.not_mem_nil,
      or_false] at ha
    rcases ha with rfl | rfl | rfl
    · exact .inl (by simp)
    · exact .inl (by simp)
    · exact .inr ⟨c, s, rfl⟩
  · simp only [ancestors, List.map_cons, List.map_nil, List.mem_cons, List.not_mem_nil,
      or_false] at ha
    rcases ha with rfl | rfl
    · exact .inl (by simp)
    · exact .inl (by simp)

/-- A file system can use every name of the path. -/
def Usable (p : Path) : Prop := ∀ name ∈ p, FileTree.nameFits name ∧ ¬ FileTree.hasNul name

instance (p : Path) : Decidable p.Usable := inferInstanceAs (Decidable (∀ name ∈ p, _))

theorem Usable.of_mem_ancestors {p a : Path} (hp : p.Usable) (ha : a ∈ ancestors p) : a.Usable :=
  fun name hname => hp name ((prefix_of_mem_ancestors ha).subset hname)

theorem Usable.all_nameFits {p : Path} (hp : p.Usable) : p.all FileTree.nameFits :=
  List.all_eq_true.mpr fun name hname => (hp name hname).1

theorem Usable.not_any_hasNul {p : Path} (hp : p.Usable) : p.any FileTree.hasNul = false :=
  List.any_eq_false.mpr fun name hname => (hp name hname).2

end Path

namespace FileTree

variable {t : FileTree} {p : Path}

/-- Files are entries of a store, and directories lead to them. -/
structure Shaped (t : FileTree) : Prop where
  files : ∀ p, t.isFile p → p.IsEntry
  directories : ∀ p, t.isDirectory p → p.IsFolder

theorem shaped_empty : empty.Shaped := by
  refine ⟨fun p hp => ?_, fun p hp => ?_⟩
  · cases hp
  · rw [isDirectory, empty, List.contains_nil, Bool.or_false, beq_iff_eq] at hp
    subst hp
    exact .inl (Nat.zero_le 2)

/-- In the place of an entry there is a file or nothing. -/
theorem Shaped.find (h : t.Shaped) (hp : p.IsEntry) (usable : p.Usable) :
    t.find p = match t.content? p with
      | some bytes => .file bytes
      | none => .missing := by
  have notDirectory : t.isDirectory p = false :=
    Bool.eq_false_iff.mpr fun hd => hp.not_isFolder (h.directories p hd)
  have free : (Path.ancestors p).any t.isFile = false := List.any_eq_false.mpr fun a ha hfile =>
    (h.files a hfile).not_isFolder (Path.isFolder_of_mem_ancestors hp ha)
  have short : t.stopsAtLongName p = false := by
    refine List.any_eq_false.mpr fun q hq => ?_
    have fits : q.Usable := by
      rcases List.mem_cons.mp hq with rfl | hq
      · exact usable
      · exact usable.of_mem_ancestors hq
    cases hlast : q.getLast? with
    | none => simp
    | some name => simp [(fits name (List.mem_of_getLast? hlast)).1]
  unfold FileTree.find
  cases t.content? p with
  | some bytes => rfl
  | none => simp [notDirectory, usable.not_any_hasNul, free, short]

theorem Shaped.addDirectories (h : t.Shaped) (hp : p.IsEntry) (usable : p.Usable) :
    ∃ t', t.addDirectories (Path.ancestors p) = some t' ∧ t'.Shaped := by
  have allowed : (Path.ancestors p).any (fun a => t.isFile a || !a.all nameFits || a.any hasNul) =
      false := by
    refine List.any_eq_false.mpr fun a ha => ?_
    have fits := usable.of_mem_ancestors ha
    have free : ¬ t.isFile a := fun hfile =>
      (h.files a hfile).not_isFolder (Path.isFolder_of_mem_ancestors hp ha)
    simp [free, fits.all_nameFits, fits.not_any_hasNul]
  cases hadd : t.addDirectories (Path.ancestors p) with
  | none =>
    rw [FileTree.addDirectories, allowed] at hadd
    cases hadd
  | some t' =>
    obtain ⟨files, directories⟩ := addDirectories_eq_some hadd
    refine ⟨t', rfl, fun q hq => h.files q ?_, fun q hq => ?_⟩
    · rwa [isFile, content?, files] at hq
    · rw [directories, Bool.or_eq_true] at hq
      rcases hq with hq | hq
      · exact h.directories q hq
      · exact Path.isFolder_of_mem_ancestors hp (List.contains_iff_mem.mp hq)

theorem Shaped.put (h : t.Shaped) (hp : p.IsEntry) (bytes : ByteArray) :
    (t.put p bytes).Shaped := by
  refine ⟨fun q hq => ?_, fun q hq => ?_⟩
  · rw [isFile_put, Bool.or_eq_true, beq_iff_eq] at hq
    rcases hq with rfl | hq
    · exact hp
    · exact h.files q hq
  · rw [isDirectory_put, Bool.or_eq_true] at hq
    rcases hq with hq | hq
    · exact h.directories q hq
    · exact Path.isFolder_of_mem_ancestors hp (List.contains_iff_mem.mp hq)

theorem Shaped.remove (h : t.Shaped) (p : Path) : (t.remove p).Shaped := by
  refine ⟨fun q hq => ?_, fun q hq => h.directories q hq⟩
  rw [isFile_remove, Bool.and_eq_true] at hq
  exact h.files q hq.2

end FileTree

namespace FileStore

/-- The key names an entry at the path. -/
structure Names (key : String) (p : Path) : Prop where
  path : FileStore.path key = .ok p
  entry : p.IsEntry
  text : p.text = key
  file : namesDirectory key = false

variable {key key' : String} {p p' : Path}

theorem Names.path_eq (h : Names key p) (h' : Names key p') : p = p' :=
  Except.ok.inj (h.path.symm.trans h'.path)

theorem Names.key_eq (h : Names key p) (h' : Names key' p) : key = key' := h.text.symm.trans h'.text

theorem path_eq_ok_iff : FileStore.path key = .ok p ↔
    StoragePath.isSafe key.toList = true ∧
      p = (StoragePath.components key.toList).map String.ofList := by
  rw [FileStore.path, StoragePath.ofKey]
  by_cases hsafe : StoragePath.isSafe key.toList = true
  · rw [if_pos hsafe]
    simp [Except.map, hsafe, eq_comm]
  · rw [if_neg hsafe]
    refine iff_of_false ?_ fun h => hsafe h.1
    intro h
    cases h

theorem path_eq_error (h : ¬ StoragePath.isSafe key.toList = true) :
    FileStore.path key = .error (.invalidKey key) := by
  rw [FileStore.path, StoragePath.ofKey, if_neg h]
  rfl

theorem read_of_path (s : FileStore) (h : FileStore.path key = .ok p) :
    s.read key = match s.tree.find p with
      | .file bytes => .ok bytes
      | .missing => .error (.notFound key)
      | .directory => .error (.io key)
      | .blocked => .error (.io key) := by
  rw [read, h]
  rfl

/-- Parts of a key that a path keeps, and that lead down. -/
def IsName (part : List Char) : Prop := part ≠ [] ∧ part ≠ ['.'] ∧ part ≠ ['.', '.']

instance (part : List Char) : Decidable (IsName part) := inferInstanceAs (Decidable (_ ∧ _))

theorem isName_of_long {part : List Char} (h : 2 < part.length) : IsName part := by
  refine ⟨?_, ?_, ?_⟩ <;>
  · rintro rfl
    simp at h

theorem isName_status (status : ContentStatus) : IsName (Named.text status).toList := by
  cases status <;> decide

/-- The parts of a key that are all names make a path. -/
theorem path_of_parts {key : List Char} {first : List Char} {rest : List (List Char)}
    (hparts : Text.splitOn '/' key = first :: rest)
    (hnames : ∀ part ∈ first :: rest, IsName part) :
    FileStore.path (.ofList key) = .ok ((first :: rest).map String.ofList) := by
  have safe : StoragePath.isSafe key := by
    rw [StoragePath.isSafe, hparts]
    have up : (first :: rest).contains ['.', '.'] = false :=
      Bool.eq_false_iff.mpr fun hmem => (hnames _ (List.contains_iff_mem.mp hmem)).2.2 rfl
    have head := hnames first List.mem_cons_self
    simp only [up, head.1, head.2.1, ne_eq, not_false_eq_true, decide_true, Bool.not_false,
      Bool.and_true]
  have kept : StoragePath.components key = first :: rest := by
    rw [StoragePath.components, hparts]
    refine List.filter_eq_self.mpr fun part hpart => ?_
    exact decide_eq_true ⟨(hnames part hpart).1, (hnames part hpart).2.1⟩
  rw [path, StoragePath.ofKey, String.toList_ofList, if_pos safe, kept]
  rfl

theorem names_of_parts {key : List Char} {first : List Char} {rest : List (List Char)}
    (hparts : Text.splitOn '/' key = first :: rest)
    (hnames : ∀ part ∈ first :: rest, IsName part)
    (hentry : Path.IsEntry ((first :: rest).map String.ofList)) :
    Names (.ofList key) ((first :: rest).map String.ofList) := by
  refine ⟨path_of_parts hparts hnames, hentry, ?_, ?_⟩
  · rw [← hparts]
    exact Text.join_splitOn key
  · have last {part : List Char} (h : (first :: rest).getLast? = some part) : IsName part :=
      hnames part (List.mem_of_getLast? h)
    rw [namesDirectory, endsInPoint, String.toList_ofList, hparts, Bool.or_eq_false_iff]
    constructor
    · refine decide_eq_false fun hslash => ?_
      have empty := Text.getLast?_splitOn hslash
      rw [hparts] at empty
      exact (last empty).1 rfl
    · have kept : (first :: rest).filter (· ≠ []) = first :: rest :=
        List.filter_eq_self.mpr fun part hpart => decide_eq_true (hnames part hpart).1
      rw [kept]
      exact decide_eq_false fun hpoint => (last hpoint).2.1 rfl

/-- A key that can be read and stays below the root names an entry, and so does the key of the
metadata beside it. -/
theorem names_of_readable {key : String} {k : ArtifactKey × ContentStatus}
    (hread : ArtifactKey.ofContentKey? key = some k) (hpath : FileStore.path key = .ok p) :
    Names key p ∧ ∃ q, Names k.1.metadataKey q := by
  have safe : StoragePath.isSafe key.toList := by
    by_contra outside
    rw [path, StoragePath.ofKey, if_neg outside] at hpath
    cases hpath
  unfold ArtifactKey.ofContentKey? at hread
  split at hread
  · rename_i capability generated st file hparts
    have plain (part : List Char) (hpart : part ∈ [capability, generated, st, file]) :
        '/' ∉ part := Text.not_mem_of_mem_splitOn (hparts ▸ hpart)
    rw [StoragePath.isSafe, hparts] at safe
    simp only [Bool.and_eq_true, decide_eq_true_eq, Bool.not_eq_true', List.contains_eq_mem,
      decide_eq_false_iff_not] at safe
    obtain ⟨⟨-, first⟩, up⟩ := safe
    have up (part : List Char) (hpart : part ∈ [capability, generated, st, file]) :
        part ≠ ['.', '.'] := fun hh => up (hh ▸ hpart)
    split at hread
    · cases hread
    · rename_i hfront
      obtain ⟨rfl, hcapability⟩ : generated = "generated".toList ∧ capability ≠ [] := by
        simpa [not_or] using hfront
      split at hread
      · rename_i status id extension hstatus hfile
        split at hread
        · cases hread
        · rename_i hid
          cases hread
          have whole := Text.splitLast_eq_some hfile
          have hst : st = (Named.text status).toList := by
            rw [Named.text_of_ofText? hstatus, String.toList_ofList]
          have front : IsName capability := ⟨hcapability, first, up capability (by simp)⟩
          have last : IsName file := by
            refine ⟨?_, ?_, up file (by simp)⟩
            · rw [whole]
              simp
            · rw [whole]
              intro hh
              cases id with
              | nil => exact hid rfl
              | cons c cs => simp at hh
          have names (part : List Char)
              (hpart : part ∈ [capability, "generated".toList, st, file]) : IsName part := by
            simp only [List.mem_cons, List.not_mem_nil, or_false] at hpart
            rcases hpart with rfl | rfl | rfl | rfl
            · exact front
            · decide
            · exact hst ▸ isName_status status
            · exact last
          have content := names_of_parts hparts names (.inl ⟨_, _, _, rfl⟩)
          rw [String.ofList_toList] at content
          obtain rfl := Except.ok.inj (content.path.symm.trans hpath)
          have side : Text.splitOn '/' (ArtifactKey.metadataKey
              ⟨.ofList capability, .ofList id, .ofList extension⟩).toList =
                [capability, "metadata".toList, id ++ ".json".toList] := by
            have hname : '/' ∉ id ++ ".json".toList := by
              have hfile' := plain file (by simp)
              rw [whole, List.mem_append, not_or] at hfile'
              rw [List.mem_append, not_or]
              exact ⟨hfile'.1, by decide⟩
            rw [Lane.splitOn_metadataKey]
            simp only [String.toList_ofList]
            rw [Text.splitOn_of_not_mem (plain capability (by simp)),
              Text.splitOn_of_not_mem hname]
            rfl
          have names' (part : List Char)
              (hpart : part ∈ [capability, "metadata".toList, id ++ ".json".toList]) :
              IsName part := by
            simp only [List.mem_cons, List.not_mem_nil, or_false] at hpart
            rcases hpart with rfl | rfl | rfl
            · exact front
            · decide
            · exact isName_of_long (by simp)
          have metadata := names_of_parts side names' (.inr ⟨_, _, rfl⟩)
          rw [String.ofList_toList] at metadata
          exact ⟨content, _, metadata⟩
      · cases hread
  · cases hread

end FileStore

end PlaybookEngine
