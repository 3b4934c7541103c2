import PlaybookEngine.Artifact.Key
import PlaybookEngine.Proofs.Text.Parts

namespace PlaybookEngine.ArtifactKey

/-- The key of the metadata that belongs to a content key; none when the key cannot be read. -/
def side? (key : String) : Option String := (ofContentKey? key).map fun k => k.1.metadataKey

/-- Metadata that belongs to some content key lies under this key. -/
def IsSide (key : String) : Prop := ∃ content, side? content = some key

/-- A key that can be read as a content key has three slashes, and the key of the metadata that
belongs to it has two. -/
theorem slashes_of_readable {key : String} {k : ArtifactKey × ContentStatus}
    (h : ofContentKey? key = some k) :
    key.toList.count '/' = 3 ∧ k.1.metadataKey.toList.count '/' = 2 := by
  unfold ofContentKey? at h
  split at h
  · rename_i capability generated st file hparts
    have plain (part : List Char) (hpart : part ∈ [capability, generated, st, file]) :
        '/' ∉ part := Text.not_mem_of_mem_splitOn (hparts ▸ hpart)
    have slashes := Text.length_splitOn '/' key.toList
    rw [hparts] at slashes
    refine ⟨by simpa using slashes.symm, ?_⟩
    split at h
    · cases h
    · split at h
      · rename_i status id extension _ hfile
        split at h
        · cases h
        · cases h
          have hcap := plain capability (by simp)
          have hid := plain file (by simp)
          rw [Text.splitLast_eq_some hfile, List.mem_append, not_or] at hid
          simp [metadataKey, List.count_eq_zero_of_not_mem hcap,
            List.count_eq_zero_of_not_mem hid.1]
      · cases h
  · cases h

/-- Content and metadata never share a key. -/
theorem metadataKey_ne {key : String} {k : ArtifactKey} {status : ContentStatus}
    (h : ofContentKey? key = some (k, status)) : k.metadataKey ≠ key := by
  intro hkey
  obtain ⟨three, two⟩ := slashes_of_readable h
  rw [hkey, three] at two
  cases two

/-- No metadata lies under a key that can be read as a content key. -/
theorem not_isSide_of_side {key side : String} (h : side? key = some side) : ¬ IsSide key := by
  rintro ⟨content, hkey⟩
  obtain ⟨k, hread, -⟩ := Option.map_eq_some_iff.mp h
  obtain ⟨k', hread', hside⟩ := Option.map_eq_some_iff.mp hkey
  have three := (slashes_of_readable hread).1
  have two := (slashes_of_readable hread').2
  rw [hside, three] at two
  cases two

/-- Content never lies where metadata could lie, whether its key can be read or not. -/
theorem not_isSide_contentKey (k : ArtifactKey) (status : ContentStatus) :
    ¬ IsSide (k.contentKey status) := by
  rintro ⟨content, hside⟩
  obtain ⟨k', hread, hkey⟩ := Option.map_eq_some_iff.mp hside
  obtain ⟨-, two⟩ := slashes_of_readable hread
  rw [hkey] at two
  simp [contentKey] at two
  omega

end PlaybookEngine.ArtifactKey
