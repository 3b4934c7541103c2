import PlaybookEngine.Proofs.Artifact.Atomicity
import PlaybookEngine.Proofs.Artifact.Places

namespace PlaybookEngine.ArtifactKey

/-- The parts are where the separators of a content key say. -/
structure Plain (k : ArtifactKey) : Prop where
  capability_ne : k.capability ≠ ""
  capability : '/' ∉ k.capability.toList
  id_ne : k.id ≠ ""
  id : '/' ∉ k.id.toList
  extension : '/' ∉ k.extension.toList
  point : '.' ∉ k.extension.toList

variable {key : String} {k k' : ArtifactKey} {status : ContentStatus}

theorem Plain.file (h : k.Plain) : '/' ∉ k.id.toList ++ '.' :: k.extension.toList := by
  simp [h.id, h.extension]

theorem Plain.ofContentKey? (h : k.Plain) (status : ContentStatus) :
    ofContentKey? (k.contentKey status) = some (k, status) := by
  rw [ofContentKey?_of_parts (Text.splitOn_of_not_mem h.capability)
    (Text.splitOn_of_not_mem h.file), if_neg (mt String.toList_eq_nil_iff.mp h.capability_ne),
    Text.splitLast_append_cons h.point]
  dsimp only
  rw [if_neg (mt String.toList_eq_nil_iff.mp h.id_ne), String.ofList_toList,
    String.ofList_toList, String.ofList_toList]

/-- What is read is plain, and its text is what it was read from. -/
theorem plain_of_ofContentKey? (h : ofContentKey? key = some (k, status)) :
    k.Plain ∧ k.contentKey status = key := by
  unfold ArtifactKey.ofContentKey? at h
  split at h
  · rename_i capability generated st file hparts
    have slashless (part : List Char) (hpart : part ∈ [capability, generated, st, file]) :
        '/' ∉ part := Text.not_mem_of_mem_splitOn (hparts ▸ hpart)
    split at h
    · cases h
    · rename_i hfront
      obtain ⟨rfl, hcapability⟩ : generated = "generated".toList ∧ capability ≠ [] := by
        simpa [not_or] using hfront
      split at h
      · rename_i status' id extension hstatus hfile
        split at h
        · cases h
        · rename_i hid
          cases h
          obtain ⟨rfl, hpoint⟩ := Text.splitLast_eq_some_iff.mp hfile
          have hname := slashless _ (by simp : id ++ '.' :: extension ∈ [_, _, _, _])
          simp only [List.mem_append, List.mem_cons, not_or] at hname
          refine ⟨⟨by simpa using hcapability, ?_, by simpa using hid, ?_, ?_, ?_⟩, ?_⟩
          · simpa using slashless capability (by simp)
          · simpa using hname.1
          · simpa using hname.2.2
          · simpa using hpoint
          · have joined := Text.join_splitOn key.toList
            rw [hparts, String.ofList_toList] at joined
            rw [← joined, contentKey, Named.text_of_ofText? hstatus]
            apply String.toList_inj.mp
            simp [Text.join]
      · cases h
  · cases h

theorem slashless_of_readable (h : ArtifactKey.ofContentKey? (k.contentKey status) ≠ none) :
    k.capability ≠ "" ∧ '/' ∉ k.capability.toList ∧ '/' ∉ k.id.toList ∧
      '/' ∉ k.extension.toList := by
  obtain ⟨capability, file, hcapability, hfile⟩ := parts_of_readable h
  have hempty : capability ≠ [] := by
    rintro rfl
    rw [ofContentKey?_of_parts hcapability hfile, if_pos rfl] at h
    exact h rfl
  obtain ⟨hslash, rfl⟩ := Text.splitOn_eq_singleton hcapability
  obtain ⟨hslash', -⟩ := Text.splitOn_eq_singleton hfile
  simp only [List.mem_append, List.mem_cons, not_or] at hslash'
  exact ⟨mt String.toList_eq_nil_iff.mpr hempty, hslash, hslash'.1, hslash'.2.2⟩

/-- Exactly the texts of plain keys are read. -/
theorem ofContentKey?_eq_some_iff :
    ofContentKey? key = some (k, status) ↔ k.Plain ∧ k.contentKey status = key := by
  constructor
  · exact plain_of_ofContentKey?
  · rintro ⟨h, rfl⟩
    exact h.ofContentKey? status

/-- The metadata of plain keys lies under one key only for one capability and id. -/
theorem Plain.metadataKey_eq_iff (h : k.Plain) (h' : k'.Plain) :
    k.metadataKey = k'.metadataKey ↔ k.capability = k'.capability ∧ k.id = k'.id := by
  have parts {j : ArtifactKey} (hj : j.Plain) : Text.splitOn '/' j.metadataKey.toList =
      [j.capability.toList, "metadata".toList, j.id.toList ++ ".json".toList] := by
    have hname : '/' ∉ j.id.toList ++ ".json".toList := by
      rw [List.mem_append, not_or]
      exact ⟨hj.id, by decide⟩
    rw [Lane.splitOn_metadataKey, Text.splitOn_of_not_mem hj.capability,
      Text.splitOn_of_not_mem hname]
    rfl
  constructor
  · intro hsame
    have hparts := parts h
    rw [hsame, parts h'] at hparts
    simp only [List.cons.injEq, true_and, and_true, List.append_cancel_right_eq] at hparts
    exact ⟨String.toList_inj.mp hparts.1.symm, String.toList_inj.mp hparts.2.symm⟩
  · rintro ⟨hcapability, hid⟩
    rw [metadataKey, metadataKey, hcapability, hid]

/-- A key that is read has its own text again, the text of a key is read as that key just when its
parts have no separators in them, and of the keys that are read only those of one capability and id
share their metadata. -/
theorem content_keys_read_back :
    (∀ key k status, read key = .ok (k, status) → k.contentKey status = key) ∧
    (∀ (k : ArtifactKey) (status : ContentStatus), read (k.contentKey status) = .ok (k, status) ↔
      (k.capability ≠ "" ∧ '/' ∉ k.capability.toList) ∧ (k.id ≠ "" ∧ '/' ∉ k.id.toList) ∧
        '/' ∉ k.extension.toList ∧ '.' ∉ k.extension.toList) ∧
    ∀ key key' k k' status status', read key = .ok (k, status) → read key' = .ok (k', status') →
      (k.metadataKey = k'.metadataKey ↔ k.capability = k'.capability ∧ k.id = k'.id) := by
  simp only [read_eq_ok, ofContentKey?_eq_some_iff]
  refine ⟨fun key k status h => h.2, fun k status => ?_, ?_⟩
  · constructor
    · rintro ⟨h, -⟩
      exact ⟨⟨h.capability_ne, h.capability⟩, ⟨h.id_ne, h.id⟩, h.extension, h.point⟩
    · rintro ⟨⟨hcapability, hslash⟩, ⟨hid, hslash'⟩, hextension, hpoint⟩
      exact ⟨⟨hcapability, hslash, hid, hslash', hextension, hpoint⟩, trivial⟩
  · intro key key' k k' status status' h h'
    exact h.1.metadataKey_eq_iff h'.1

/-- An archive, drafted and published, of which only the last point belongs to the extension. -/
theorem archive_keys_read_back :
    read "seo/generated/draft/exec-1-pages-v1.tar.gz" =
        .ok (⟨"seo", "exec-1-pages-v1.tar", "gz"⟩, .draft) ∧
      read "seo/generated/published/exec-1-pages-v1.tar.xz" =
        .ok (⟨"seo", "exec-1-pages-v1.tar", "xz"⟩, .published) ∧
      contentKey ⟨"seo", "exec-1-pages-v1.tar", "gz"⟩ .draft =
        "seo/generated/draft/exec-1-pages-v1.tar.gz" ∧
      (metadataKey ⟨"seo", "exec-1-pages-v1.tar", "gz"⟩ =
          metadataKey ⟨"seo", "exec-1-pages-v1.tar", "xz"⟩ ↔
        "seo" = "seo" ∧ "exec-1-pages-v1.tar" = "exec-1-pages-v1.tar") := by
  have hread : read "seo/generated/draft/exec-1-pages-v1.tar.gz" =
      .ok (⟨"seo", "exec-1-pages-v1.tar", "gz"⟩, .draft) := by decide
  have hread' : read "seo/generated/published/exec-1-pages-v1.tar.xz" =
      .ok (⟨"seo", "exec-1-pages-v1.tar", "xz"⟩, .published) := by decide
  obtain ⟨texts, -, sides⟩ := content_keys_read_back
  exact ⟨hread, hread', texts _ _ _ hread, sides _ _ _ _ _ _ hread hread'⟩

end PlaybookEngine.ArtifactKey
