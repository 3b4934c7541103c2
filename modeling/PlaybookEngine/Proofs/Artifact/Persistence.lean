import PlaybookEngine.Proofs.Artifact.Store
import PlaybookEngine.Proofs.Artifact.Key
import PlaybookEngine.Proofs.Fields.Ordered

namespace PlaybookEngine

namespace ArtifactDraft

variable (d : ArtifactDraft)

def contentKey : String := d.key.contentKey d.contentStatus

/-- The key of the metadata; none when the content key cannot be read. -/
def metadataKey? : Option String :=
  (ArtifactKey.ofContentKey? d.contentKey).map fun k => k.1.metadataKey

/-- The stored artifact of a draft. -/
def artifact (now : Timestamp) : Artifact :=
  (Artifact.Version.ofDraft d).artifact d.contentKey now

/-- The draft can be stored where some keys are taken. -/
def Fits (taken : String → Prop) : Prop :=
  ∃ side, d.metadataKey? = some side ∧ ¬ taken d.contentKey ∧ ¬ taken side

/-- The keys that are taken with those of the draft. -/
def takenWith (taken : String → Prop) (key : String) : Prop :=
  taken key ∨ key = d.contentKey ∨ d.metadataKey? = some key

/-- Drafts can be stored one after the other. -/
def FitAll : (String → Prop) → List ArtifactDraft → Prop
  | _, [] => True
  | taken, d :: rest => d.Fits taken ∧ FitAll (d.takenWith taken) rest

/-- The first draft can be stored, but one of those after it cannot. -/
def Torn (taken : String → Prop) : List ArtifactDraft → Prop
  | [] => False
  | d :: rest => d.Fits taken ∧ ¬ FitAll (d.takenWith taken) rest

theorem metadataKey?_ne {d : ArtifactDraft} {side : String} (h : d.metadataKey? = some side) :
    side ≠ d.contentKey := by
  obtain ⟨⟨k, status⟩, hk, rfl⟩ := Option.map_eq_some_iff.mp h
  exact ArtifactKey.metadataKey_ne hk

end ArtifactDraft

namespace MemoryStore

def Taken (m : MemoryStore) (key : String) : Prop := Fields.get? key m.entries ≠ none

def withArtifact (m : MemoryStore) (a : Artifact) (content : ByteArray) (side : String) :
    MemoryStore :=
  ⟨Fields.insert side a.encode.compact.toUTF8 (Fields.insert a.storageKey content m.entries)⟩

/-- The second store has exactly two entries more for each artifact: under keys that were free
before, the content that the artifact tells the digest and size of, and the metadata. -/
inductive Gained : MemoryStore → List Artifact → MemoryStore → Prop
  | nil (m : MemoryStore) : Gained m [] m
  | cons {m m' : MemoryStore} {a : Artifact} {rest : List Artifact} {content : ByteArray}
    {key : ArtifactKey} {status : ContentStatus}
    (read : ArtifactKey.read a.storageKey = .ok (key, status))
    (apart : key.metadataKey ≠ a.storageKey)
    (free : ¬ m.Taken a.storageKey) (freeSide : ¬ m.Taken key.metadataKey)
    (digest : a.sha256 = Digest.sha256 content) (size : a.sizeBytes = content.size)
    (others : Gained (m.withArtifact a content key.metadataKey) rest m') :
    Gained m (a :: rest) m'

variable {m : MemoryStore} {now : Timestamp} {d : ArtifactDraft}

theorem taken_withArtifact (a : Artifact) (content : ByteArray) (side key : String) :
    (m.withArtifact a content side).Taken key ↔ m.Taken key ∨ key = a.storageKey ∨ side = key := by
  simp only [Taken, withArtifact, Fields.get?_insert]
  by_cases hside : side = key
  · simp [hside]
  · by_cases hkey : a.storageKey = key
    · simp [hside, hkey]
    · simp [hside, hkey, Ne.symm hkey]

theorem Gained.eq_of_nil {m m' : MemoryStore} (h : Gained m [] m') : m' = m := by
  cases h
  rfl

theorem Gained.taken {m m' : MemoryStore} {as : List Artifact} (h : Gained m as m') {key : String}
    (hkey : m.Taken key) : m'.Taken key := by
  induction h with
  | nil m => exact hkey
  | cons _ _ _ _ _ _ _ ih => exact ih ((taken_withArtifact ..).mpr (.inl hkey))

/-- A store that gains an artifact changes. -/
theorem Gained.eq_nil {m : MemoryStore} {as : List Artifact} (h : Gained m as m) : as = [] := by
  cases h with
  | nil => rfl
  | cons _ _ free _ _ _ others =>
    exact absurd (others.taken ((taken_withArtifact ..).mpr (.inr (.inl rfl)))) free

theorem create_of_not_taken {key : String} (h : ¬ m.Taken key) (bytes : ByteArray) :
    m.create key bytes = (.ok (), ⟨Fields.insert key bytes m.entries⟩) := by
  rw [create, not_not.mp h]

theorem create_of_taken {key : String} (h : m.Taken key) (bytes : ByteArray) :
    m.create key bytes = (.error (.alreadyExists key), m) := by
  obtain ⟨old, hold⟩ := Option.ne_none_iff_exists'.mp h
  rw [create, hold]

theorem write_of_not_taken (h : ¬ m.Taken d.contentKey) :
    (ArtifactStore.memory m).answer (.writeArtifact d.key d.content.toUTF8 d.contentStatus) =
      (.ok d.contentKey,
        .memory ⟨Fields.insert d.contentKey d.content.toUTF8 m.entries⟩) := by
  have created := create_of_not_taken h d.content.toUTF8
  rw [ArtifactDraft.contentKey] at created
  rw [ArtifactStore.answer, answer, created]
  rfl

theorem write_of_taken (h : m.Taken d.contentKey) :
    (ArtifactStore.memory m).answer (.writeArtifact d.key d.content.toUTF8 d.contentStatus) =
      (.error (.alreadyExists d.contentKey), .memory m) := by
  have refused := create_of_taken h d.content.toUTF8
  rw [ArtifactDraft.contentKey] at refused
  rw [ArtifactStore.answer, answer, refused]
  rfl

theorem writeMetadata_eq {a : Artifact} {k : ArtifactKey} {status : ContentStatus}
    (h : ArtifactKey.ofContentKey? a.storageKey = some (k, status)) :
    (ArtifactStore.memory m).answer (.writeMetadata a) =
      ((m.create k.metadataKey a.encode.compact.toUTF8).1,
        .memory (m.create k.metadataKey a.encode.compact.toUTF8).2) := by
  rw [ArtifactStore.answer, answer, ArtifactKey.read_eq_ok.mpr h]
  rfl

theorem writeMetadata_of_unreadable {a : Artifact}
    (h : ArtifactKey.ofContentKey? a.storageKey = none) :
    (ArtifactStore.memory m).answer (.writeMetadata a) =
      (.error (.invalidKey a.storageKey), .memory m) := by
  rw [ArtifactStore.answer, answer, ArtifactKey.read, h]
  rfl

theorem persist_of_not_fits (h : ¬ d.Fits m.Taken) (now : Timestamp) :
    ∃ err, ArtifactStore.run now (Artifact.persist d) (.memory m) = (.error err, .memory m) := by
  by_cases hcontent : m.Taken d.contentKey
  · exact ⟨_, ArtifactStore.run_store_of_content_refused (write_of_taken hcontent)⟩
  · have written := write_of_not_taken hcontent
    have undone : (ArtifactStore.answer
        (.memory ⟨Fields.insert d.contentKey d.content.toUTF8 m.entries⟩)
        (.removeArtifact d.contentKey)).2 = .memory m := by
      change ArtifactStore.memory ⟨Fields.erase _ (Fields.insert _ _ m.entries)⟩ = _
      rw [Fields.erase_insert (not_not.mp hcontent)]
    rcases hread : ArtifactKey.ofContentKey? d.contentKey with _ | ⟨key, status⟩
    · have refused := writeMetadata_of_unreadable (a := d.artifact now)
        (m := ⟨Fields.insert d.contentKey d.content.toUTF8 m.entries⟩) hread
      have run := ArtifactStore.run_store_of_metadata_refused written refused
      rw [undone] at run
      exact ⟨_, run⟩
    · have side : d.metadataKey? = some key.metadataKey := by
        rw [ArtifactDraft.metadataKey?, hread]
        rfl
      have taken : m.Taken key.metadataKey := by
        by_contra free
        exact h ⟨_, side, hcontent, free⟩
      have taken' : Taken ⟨Fields.insert d.contentKey d.content.toUTF8 m.entries⟩
          key.metadataKey := by
        rw [Taken, Fields.get?_insert_of_ne (ArtifactDraft.metadataKey?_ne side).symm]
        exact taken
      have refused := writeMetadata_eq (m := ⟨Fields.insert d.contentKey d.content.toUTF8 m.entries⟩)
        (a := d.artifact now) hread
      rw [create_of_taken taken'] at refused
      have run := ArtifactStore.run_store_of_metadata_refused written refused
      rw [undone] at run
      exact ⟨_, run⟩

theorem persist_of_fits (h : d.Fits m.Taken) (now : Timestamp) :
    ∃ m', ArtifactStore.run now (Artifact.persist d) (.memory m) =
        (.ok (d.artifact now), .memory m') ∧
      (∀ key, m'.Taken key ↔ d.takenWith m.Taken key) ∧
      ∀ rest m'', Gained m' rest m'' → Gained m (d.artifact now :: rest) m'' := by
  obtain ⟨side, hside, hcontent, free⟩ := h
  obtain ⟨⟨key, status⟩, hread, rfl⟩ := Option.map_eq_some_iff.mp hside
  have written := write_of_not_taken hcontent
  have apart : key.metadataKey ≠ d.contentKey := ArtifactDraft.metadataKey?_ne hside
  have free' : ¬ Taken ⟨Fields.insert d.contentKey d.content.toUTF8 m.entries⟩
      key.metadataKey := by
    rw [Taken, Fields.get?_insert_of_ne apart.symm]
    exact free
  have described := writeMetadata_eq (m := ⟨Fields.insert d.contentKey d.content.toUTF8 m.entries⟩)
    (a := d.artifact now) hread
  rw [create_of_not_taken free'] at described
  refine ⟨m.withArtifact (d.artifact now) d.content.toUTF8 key.metadataKey,
    ArtifactStore.run_store_of_ok written described, fun k => ?_, fun rest m'' others => ?_⟩
  · rw [taken_withArtifact, ArtifactDraft.takenWith, hside, Option.some_inj]
    rfl
  · exact .cons (ArtifactKey.read_eq_ok.mpr hread) apart hcontent free rfl rfl others

/-- Of several drafts those before the first that cannot be stored are kept. -/
theorem persistAll_memory (now : Timestamp) (ds : List ArtifactDraft) (m : MemoryStore) :
    ∃ kept m', kept <+: ds ∧ Gained m (kept.map (·.artifact now)) m' ∧
      (ArtifactDraft.FitAll m.Taken ds ∧ kept = ds ∧
          ArtifactStore.persistAll now ds (.memory m) =
            (.ok (ds.map (·.artifact now)), .memory m') ∨
        ¬ ArtifactDraft.FitAll m.Taken ds ∧ (kept = [] ↔ ¬ ArtifactDraft.Torn m.Taken ds) ∧
          ∃ err, ArtifactStore.persistAll now ds (.memory m) = (.error err, .memory m')) := by
  induction ds generalizing m with
  | nil => exact ⟨[], m, List.prefix_rfl, .nil m, .inl ⟨trivial, rfl, rfl⟩⟩
  | cons d rest ih =>
    by_cases hfits : d.Fits m.Taken
    · obtain ⟨m₁, hrun, htaken, hgained⟩ := persist_of_fits hfits now
      have same : m₁.Taken = d.takenWith m.Taken := funext fun key => propext (htaken key)
      obtain ⟨kept, m', hpre, hkept, hrest⟩ := ih m₁
      refine ⟨d :: kept, m', List.cons_prefix_cons.mpr ⟨rfl, hpre⟩, hgained _ _ hkept, ?_⟩
      rw [same] at hrest
      rcases hrest with ⟨hall, rfl, hout⟩ | ⟨hnot, -, err, hout⟩
      · refine .inl ⟨⟨hfits, hall⟩, rfl, ?_⟩
        rw [ArtifactStore.persistAll, hrun]
        dsimp only
        rw [hout]
        rfl
      · refine .inr ⟨fun h => hnot h.2, ?_, err, ?_⟩
        · exact iff_of_false (List.cons_ne_nil _ _) (not_not.mpr ⟨hfits, hnot⟩)
        · rw [ArtifactStore.persistAll, hrun]
          dsimp only
          rw [hout]
          rfl
    · obtain ⟨err, hrun⟩ := persist_of_not_fits hfits now
      refine ⟨[], m, List.nil_prefix, .nil m, .inr ⟨fun h => hfits h.1, ?_, err, ?_⟩⟩
      · exact iff_of_true rfl fun h => hfits h.1
      · rw [ArtifactStore.persistAll, hrun]

end MemoryStore

end PlaybookEngine
