import PlaybookEngine.Artifact.Provenance

namespace PlaybookEngine

namespace ArtifactStore

variable {α β : Type} (now : Timestamp) (st : ArtifactStore)

theorem run_bind (p : Activity Storage α) (f : α → Activity Storage β) (st : ArtifactStore) :
    run now (p >>= f) st = run now (f (run now p st).1) (run now p st).2 := by
  change run now (p.bind f) st = _
  induction p generalizing st with
  | done a => rfl
  | ask r next ih =>
    cases r with
    | now => exact ih _ _
    | store r => exact ih _ _

theorem run_writeArtifact (key : ArtifactKey) (content : ByteArray) (status : ContentStatus) :
    run now (Storage.writeArtifact key content status) st =
      st.answer (.writeArtifact key content status) := rfl

theorem run_writeMetadata (a : Artifact) :
    run now (Storage.writeMetadata a) st = st.answer (.writeMetadata a) := rfl

section Store

variable {now : Timestamp} {st st₁ st₂ : ArtifactStore} {v : Artifact.Version} {key : String}
  {err : StorageError}

theorem run_store_of_content_refused
    (h : st.answer (.writeArtifact v.key v.content v.status) = (.error err, st₁)) :
    run now (Artifact.store v) st = (.error err, st₁) := by
  rw [Artifact.store, run_bind, run_writeArtifact, h]
  rfl

theorem run_store_of_ok
    (h₁ : st.answer (.writeArtifact v.key v.content v.status) = (.ok key, st₁))
    (h₂ : st₁.answer (.writeMetadata (v.artifact key now)) = (.ok (), st₂)) :
    run now (Artifact.store v) st = (.ok (v.artifact key now), st₂) := by
  rw [Artifact.store, run_bind, run_writeArtifact, h₁]
  change run now (Storage.writeMetadata (v.artifact key now) >>= _) st₁ = _
  rw [run_bind, run_writeMetadata, h₂]
  rfl

/-- The content goes again when the metadata is refused. -/
theorem run_store_of_metadata_refused
    (h₁ : st.answer (.writeArtifact v.key v.content v.status) = (.ok key, st₁))
    (h₂ : st₁.answer (.writeMetadata (v.artifact key now)) = (.error err, st₂)) :
    run now (Artifact.store v) st = (.error err, (st₂.answer (.removeArtifact key)).2) := by
  rw [Artifact.store, run_bind, run_writeArtifact, h₁]
  change run now (Storage.writeMetadata (v.artifact key now) >>= _) st₁ = _
  rw [run_bind, run_writeMetadata, h₂]
  rfl

end Store

/-- Drafts stored in order at one point in time, up to the first that fails. -/
def persistAll (now : Timestamp) :
    List ArtifactDraft → ArtifactStore → Except StorageError (List Artifact) × ArtifactStore
  | [], st => (.ok [], st)
  | d :: rest, st =>
    match ArtifactStore.run now (Artifact.persist d) st with
    | (.error err, st) => (.error err, st)
    | (.ok a, st) => ((persistAll now rest st).1.map (a :: ·), (persistAll now rest st).2)

end ArtifactStore

end PlaybookEngine
