import PlaybookEngine.Artifact.Store
import PlaybookEngine.Proofs.Artifact.Key

namespace PlaybookEngine

/-- The keys under a capability whose names begin with the id of an execution. -/
structure Lane where
  capability : String
  execution : String

namespace Lane

/-- What leads from a capability to the names of its artifacts. -/
def branches : List (List (List Char)) :=
  ["metadata".toList] ::
    Named.all.map fun s : ContentStatus => ["generated".toList, (Named.text s).toList]

/-- Parts that lead from `front` through a branch to a name that begins with the id, or beyond. -/
def Names (front : List (List Char)) (execution : String) (parts : List (List Char)) : Prop :=
  ∃ b ∈ branches, ∃ rest beyond,
    parts = front ++ (b ++ (execution.toList ++ '-' :: rest) :: beyond)

/-- Parts that lead to the end of a branch at most. -/
def Leads (front parts : List (List Char)) : Prop := ∃ b ∈ branches, parts <+: front ++ b

variable {front parts : List (List Char)} {x y : String}

theorem Names.unique (hx : Names front x parts) (hy : Names front y parts)
    (hlength : x.length = y.length) : x = y := by
  obtain ⟨b, hb, rest, beyond, rfl⟩ := hx
  obtain ⟨b', hb', rest', beyond', heq⟩ := hy
  have same := List.append_cancel_left heq
  have names : x.toList ++ '-' :: rest = y.toList ++ '-' :: rest' := by
    simp only [branches, Named.all, List.map_cons, List.map_nil, List.mem_cons, List.not_mem_nil,
      or_false] at hb hb'
    rcases hb with rfl | rfl | rfl | rfl | rfl <;> rcases hb' with rfl | rfl | rfl | rfl | rfl <;>
      simp_all
  have lists := (List.append_inj names hlength).1
  exact String.toList_inj.mp lists

theorem Leads.not_names (h : Leads front parts) : ¬ Names front x parts := by
  intro hh
  obtain ⟨b, hb, rest, beyond, rfl⟩ := hh
  obtain ⟨b', hb', hpre⟩ := h
  rw [List.prefix_append_right_inj] at hpre
  simp only [branches, Named.all, List.map_cons, List.map_nil, List.mem_cons, List.not_mem_nil,
    or_false] at hb hb'
  rcases hb with rfl | rfl | rfl | rfl | rfl <;> rcases hb' with rfl | rfl | rfl | rfl | rfl <;>
    simp_all

/-- On the way to a name there are branches and that name. -/
theorem Names.of_prefix {some : List (List Char)} (h : Names front x parts)
    (hpre : some <+: parts) : Leads front some ∨ Names front x some := by
  obtain ⟨b, hb, rest, beyond, rfl⟩ := h
  obtain ⟨others, heq⟩ := hpre
  rw [← List.append_assoc] at heq
  rcases List.append_eq_append_iff.mp heq with ⟨cs, hfront, -⟩ | ⟨cs, hsome, hcs⟩
  · exact .inl ⟨b, hb, cs, hfront.symm⟩
  · cases cs with
    | nil =>
      rw [List.append_nil] at hsome
      exact .inl ⟨b, hb, hsome ▸ List.prefix_rfl⟩
    | cons c cs =>
      rw [List.cons_append, List.cons.injEq] at hcs
      exact .inr ⟨b, hb, rest, cs, by rw [hsome, ← hcs.1, List.append_assoc]⟩

/-- The keys of the lane. -/
def Has (l : Lane) (key : String) : Prop :=
  Names (Text.splitOn '/' l.capability.toList) l.execution (Text.splitOn '/' key.toList)

/-- The key names an artifact of the execution. -/
def Holds (l : Lane) (key : ArtifactKey) : Prop :=
  key.capability = l.capability ∧ ∃ name, key.id = artifactId l.execution name 1

variable {l : Lane} {key : ArtifactKey} {status : ContentStatus}

theorem generated_mem (status : ContentStatus) :
    ["generated".toList, (Named.text status).toList] ∈ branches :=
  List.mem_cons_of_mem _ (List.mem_map.mpr ⟨status, by cases status <;> decide, rfl⟩)

theorem Holds.id_toList (h : l.Holds key) :
    ∃ rest, key.id.toList = l.execution.toList ++ '-' :: rest := by
  obtain ⟨-, name, hid⟩ := h
  refine ⟨name.toList ++ ("-v" ++ toString 1).toList, ?_⟩
  rw [hid, artifactId]
  simp

/-- The parts of a content key: the status is one of them, and the name begins another one. -/
theorem splitOn_contentKey (key : ArtifactKey) (status : ContentStatus) :
    Text.splitOn '/' (key.contentKey status).toList =
      Text.splitOn '/' key.capability.toList ++
        (["generated".toList, (Named.text status).toList] ++
          Text.splitOn '/' (key.id.toList ++ '.' :: key.extension.toList)) := by
  have text : (key.contentKey status).toList = key.capability.toList ++
      '/' :: ("generated".toList ++ '/' :: ((Named.text status).toList ++
        '/' :: (key.id.toList ++ '.' :: key.extension.toList))) := by
    simp [ArtifactKey.contentKey]
  have first : Text.splitOn '/' "generated".toList = ["generated".toList] := by decide
  have second : Text.splitOn '/' (Named.text status).toList = [(Named.text status).toList] := by
    cases status <;> decide
  rw [text, Text.splitOn_append_cons, Text.splitOn_append_cons, Text.splitOn_append_cons, first,
    second]
  rfl

theorem Holds.has_contentKey (h : l.Holds key) (hplain : '/' ∉ l.execution.toList) :
    l.Has (key.contentKey status) := by
  obtain ⟨rest, hid⟩ := h.id_toList
  obtain ⟨part, parts, hparts⟩ := List.exists_cons_of_ne_nil
    (Text.splitOn_ne_nil '/' (rest ++ '.' :: key.extension.toList))
  have plain : '/' ∉ l.execution.toList ++ ['-'] := by simpa using hplain
  have name := Text.splitOn_append_of_not_mem plain hparts
  refine ⟨_, generated_mem status, part, parts, ?_⟩
  have whole : key.id.toList ++ '.' :: key.extension.toList =
      l.execution.toList ++ ['-'] ++ (rest ++ '.' :: key.extension.toList) := by
    simp [hid]
  rw [splitOn_contentKey, h.1, whole, name, List.append_assoc, List.singleton_append]

theorem splitOn_metadataKey (k : ArtifactKey) :
    Text.splitOn '/' k.metadataKey.toList =
      Text.splitOn '/' k.capability.toList ++
        (["metadata".toList] ++ Text.splitOn '/' (k.id.toList ++ ".json".toList)) := by
  have text : k.metadataKey.toList = k.capability.toList ++
      '/' :: ("metadata".toList ++ '/' :: (k.id.toList ++ ".json".toList)) := by
    simp [ArtifactKey.metadataKey]
  have first : Text.splitOn '/' "metadata".toList = ["metadata".toList] := by decide
  rw [text, Text.splitOn_append_cons, Text.splitOn_append_cons, first]

/-- The metadata of an artifact of the execution lies in the same lane. -/
theorem Holds.has_metadataKey {k : ArtifactKey} {status' : ContentStatus} (h : l.Holds key)
    (hread : ArtifactKey.ofContentKey? (key.contentKey status) = some (k, status')) :
    l.Has k.metadataKey := by
  unfold ArtifactKey.ofContentKey? at hread
  split at hread
  · rename_i capability generated st file hparts
    rw [splitOn_contentKey] at hparts
    have lengths := congrArg List.length hparts
    have hcapability := Text.length_splitOn '/' key.capability.toList
    have hname := Text.length_splitOn '/' (key.id.toList ++ '.' :: key.extension.toList)
    simp only [List.length_append, List.length_cons, List.length_nil] at lengths
    obtain ⟨a, ha⟩ : ∃ a, Text.splitOn '/' key.capability.toList = [a] :=
      List.length_eq_one_iff.mp (by omega)
    obtain ⟨c, hc⟩ : ∃ c, Text.splitOn '/' (key.id.toList ++ '.' :: key.extension.toList) = [c] :=
      List.length_eq_one_iff.mp (by omega)
    obtain ⟨-, rfl⟩ := Text.splitOn_eq_singleton ha
    obtain ⟨hplain, rfl⟩ := Text.splitOn_eq_singleton hc
    rw [ha, hc] at hparts
    obtain ⟨rfl, rfl, rfl, rfl⟩ : key.capability.toList = capability ∧ _ ∧ _ ∧ _ := by
      simpa using hparts
    split at hread
    · cases hread
    · split at hread
      · rename_i read id extension _ hfile
        split at hread
        · cases hread
        · cases hread
          obtain ⟨rest, hid⟩ := h.id_toList
          obtain ⟨more, rfl⟩ := Text.prefix_of_splitLast hfile
          have hplain' : '/' ∉ key.id.toList ++ more ++ ".json".toList := by
            rw [Text.splitLast_eq_some hfile, List.mem_append, not_or] at hplain
            rw [List.mem_append, not_or]
            exact ⟨hplain.1, by decide⟩
          refine ⟨_, List.mem_cons_self, rest ++ more ++ ".json".toList, [], ?_⟩
          rw [splitOn_metadataKey]
          simp only [String.ofList_toList, String.toList_ofList]
          rw [Text.splitOn_of_not_mem hplain', h.1, hid]
          simp
      · cases hread
  · cases hread

end Lane

end PlaybookEngine
