import PlaybookEngine.Proofs.Activity.Partway
import PlaybookEngine.Proofs.Artifact.Entries
import PlaybookEngine.Proofs.Artifact.Store

namespace PlaybookEngine

namespace Artifact

def persistAll : List ArtifactDraft → Activity Storage (Except StorageError (List Artifact))
  | [] => return .ok []
  | d :: rest => do
    match ← persist d with
    | .error err => return .error err
    | .ok a => return (← persistAll rest).map (a :: ·)

/-- Whoever has tried to write the metadata removes the content if that was refused. -/
def cleanUp (a : Artifact) :
    Except StorageError Unit → Activity Storage (Except StorageError Artifact)
  | .ok () => return .ok a
  | .error err => do
    let _ ← Storage.removeArtifact a.storageKey
    return .error err

/-- Whoever has tried to write the content writes the metadata if that was taken. -/
def describe (v : Version) :
    Except StorageError String → Activity Storage (Except StorageError Artifact)
  | .error err => return .error err
  | .ok key => do
    let a := v.artifact key (← Storage.now)
    cleanUp a (← Storage.writeMetadata a)

theorem store_eq (v : Version) :
    store v = Storage.writeArtifact v.key v.content v.status >>= describe v := by
  refine congrArg (Storage.writeArtifact v.key v.content v.status >>= ·) (funext fun x => ?_)
  cases x with
  | error err => rfl
  | ok key =>
    refine congrArg (Storage.now >>= ·) (funext fun now => ?_)
    refine congrArg (Storage.writeMetadata (v.artifact key now) >>= ·) (funext fun y => ?_)
    cases y <;> rfl

end Artifact

namespace ArtifactStore

open Activity

/-- A store answers at once; the clock may show any time. -/
def surroundings : Surroundings Storage ArtifactStore := fun now r st =>
  match r with
  | .now => ⟨.ofNanos now, none, st⟩
  | .store r => ⟨(st.answer r).1, none, (st.answer r).2⟩

variable {st st₁ st₂ : ArtifactStore} {v : Artifact.Version} {key : String}

/-- Whatever had an entry still has one. -/
structure Grown (st st' : ArtifactStore) : Prop where
  alike : Alike st st'
  filled : ∀ q, st.content? q ≠ none → st'.content? q ≠ none

/-- Whatever had an entry still has one, except perhaps in one place. -/
structure Spares (st : ArtifactStore) (p : Place) (st' : ArtifactStore) : Prop where
  alike : Alike st st'
  filled : ∀ q, q ≠ p → st.content? q ≠ none → st'.content? q ≠ none

theorem Alike.trans (h : Alike st st₁) (h' : Alike st₁ st₂) : Alike st st₂ :=
  ⟨h'.1.trans h.1, h'.2.trans h.2⟩

theorem grown_refl (st : ArtifactStore) : Grown st st := ⟨⟨rfl, rfl⟩, fun _ h => h⟩

theorem Grown.trans (h : Grown st st₁) (h' : Grown st₁ st₂) : Grown st st₂ :=
  ⟨h.alike.trans h'.alike, fun q hq => h'.filled q (h.filled q hq)⟩

theorem Grown.spares (h : Grown st st₁) (p : Place) : Spares st p st₁ :=
  ⟨h.alike, fun q _ hq => h.filled q hq⟩

theorem Grown.trans_spares {p : Place} (h : Grown st st₁) (h' : Spares st₁ p st₂) :
    Spares st p st₂ :=
  ⟨h.alike.trans h'.alike, fun q hne hq => h'.filled q hne (h.filled q hq)⟩

/-- A place that was filled only on the way had no entry to lose. -/
theorem Added.trans_spares {p : Place} {bytes : ByteArray} (h : Added st p bytes st₁)
    (h' : Spares st₁ p st₂) : Grown st st₂ := by
  refine ⟨h.1.trans h'.alike, fun q hq => ?_⟩
  have apart : q ≠ p := by
    rintro rfl
    exact hq h.2.1
  refine h'.filled q apart ?_
  rw [h.2.2 q, if_neg apart]
  exact hq

theorem Kept.grown (h : Kept st st₁) : Grown st st₁ :=
  ⟨h.1, fun q hq => by rwa [h.2 q]⟩

theorem Added.grown {p : Place} {bytes : ByteArray} (h : Added st p bytes st₁) : Grown st st₁ := by
  refine ⟨h.1, fun q hq => ?_⟩
  rw [h.2.2 q]
  split
  · exact Option.some_ne_none _
  · exact hq

theorem grown_writeMetadata (st : ArtifactStore) (a : Artifact) :
    Grown st (st.answer (.writeMetadata a)).2 := by
  rcases writeMetadata_cases st a with ⟨e, st₁, h, hkept⟩ | ⟨k, p, bytes, st₁, h, -, -, hadded, -⟩
  · rw [h]
    exact hkept.grown
  · rw [h]
    exact hadded.grown

theorem spares_removeArtifact {p : Place} (hplace : st.place key = .ok p) :
    Spares st p (st.answer (.removeArtifact key)).2 := by
  by_cases hremovable : st.Removable key
  · obtain ⟨halike, hgone⟩ := removeArtifact_of_removable hremovable hplace
    refine ⟨halike, fun q hq hfilled => ?_⟩
    rw [hgone, if_neg hq]
    exact hfilled
  · rw [removeArtifact_of_not_removable hremovable]
    exact (grown_refl st).spares p

def Takes (st : ArtifactStore) (v : Artifact.Version) : Prop :=
  ∃ key, (st.answer (.writeArtifact v.key v.content v.status)).1 = .ok key

def Refuses (st : ArtifactStore) (v : Artifact.Version) (err : StorageError) : Prop :=
  (st.answer (.writeArtifact v.key v.content v.status)).1 = .error err

/-- On the way from the first store to the second one the content of the version was written. -/
def Wrote (st st' : ArtifactStore) (v : Artifact.Version) : Prop :=
  ∃ key st₁, st.answer (.writeArtifact v.key v.content v.status) = (.ok key, st₁) ∧ Grown st₁ st'

theorem Wrote.trans (h : Wrote st st₁ v) (hgrown : Grown st₁ st₂) : Wrote st st₂ v := by
  obtain ⟨key, st', hwritten, hbefore⟩ := h
  exact ⟨key, st', hwritten, hbefore.trans hgrown⟩

theorem Wrote.takes (h : Wrote st st₁ v) : st.Takes v := by
  obtain ⟨key, st', hwritten, -⟩ := h
  exact ⟨key, by rw [hwritten]⟩

theorem Wrote.refuses (h : Wrote st st₂ v) : ∃ err, st₂.Refuses v err := by
  obtain ⟨key, st₁, h, hgrown⟩ := h
  rcases writeArtifact_cases st v.key v.content v.status with
    ⟨e, st', hrefused, -⟩ | ⟨p, st', hwritten, hplace, hadded⟩
  · rw [h] at hrefused
    cases hrefused
  · obtain ⟨-, rfl⟩ := Prod.mk.inj (h.symm.trans hwritten)
    have filled : st₂.content? p ≠ none := by
      refine hgrown.filled p ?_
      rw [hadded.2.2 p, if_pos rfl]
      exact Option.some_ne_none _
    have place : st₂.place (v.key.contentKey v.status) = .ok p := by
      rw [hgrown.alike.1, hadded.1.1, hplace]
    rcases writeArtifact_cases st₂ v.key v.content v.status with
      ⟨e, st', hrefused, -⟩ | ⟨p', st', -, hplace', hadded'⟩
    · exact ⟨e, congrArg Prod.fst hrefused⟩
    · rw [place] at hplace'
      obtain rfl := Except.ok.inj hplace'
      exact absurd hadded'.2.1 filled

variable {p : Activity Storage (Except StorageError Artifact)} {place : Place}

/-- Partway in cleaning up, nothing is missing but what lay under the key of the artifact, and that
only at the end. -/
theorem comesTo_cleanUp {a : Artifact} {x : Except StorageError Unit}
    (h : ComesTo surroundings (Artifact.cleanUp a x) st p st₁)
    (hplace : st.place a.storageKey = .ok place) :
    Spares st place st₁ ∧ (Grown st st₁ ∨ ∃ err, p = .done (.error err)) := by
  cases x with
  | ok u =>
    obtain ⟨-, rfl⟩ := h.of_done
    exact ⟨(grown_refl _).spares _, .inl (grown_refl _)⟩
  | error err =>
    rcases h.of_request with ⟨-, rfl⟩ | ⟨now, later⟩
    · exact ⟨(grown_refl _).spares _, .inl (grown_refl _)⟩
    · obtain ⟨rfl, rfl⟩ := later.of_done
      exact ⟨spares_removeArtifact hplace, .inr ⟨err, rfl⟩⟩

theorem comesTo_describe (h : ComesTo surroundings (Artifact.describe v (.ok key)) st p st₁)
    (hplace : st.place key = .ok place) :
    Spares st place st₁ ∧ (Grown st st₁ ∨ ∃ err, p = .done (.error err)) := by
  rcases h.of_request with ⟨-, rfl⟩ | ⟨now, later⟩
  · exact ⟨(grown_refl _).spares _, .inl (grown_refl _)⟩
  · rcases later.of_request with ⟨-, rfl⟩ | ⟨now', later'⟩
    · exact ⟨(grown_refl _).spares _, .inl (grown_refl _)⟩
    · have described := grown_writeMetadata st (v.artifact key (.ofNanos now))
      have place₂ : (st.answer (.writeMetadata (v.artifact key (.ofNanos now)))).2.place key =
          .ok place := by
        rw [described.alike.1, hplace]
      obtain ⟨hspares, hend⟩ := comesTo_cleanUp later' place₂
      exact ⟨described.trans_spares hspares, hend.imp described.trans id⟩

/-- Partway in storing a version, nothing that was there is missing; either nothing was asked for
yet, or the version has failed, or its content was written. -/
theorem comesTo_store (h : ComesTo surroundings (Artifact.store v) st p st₁) :
    Grown st st₁ ∧
      ((p = Artifact.store v ∧ st₁ = st) ∨ (∃ err, p = .done (.error err)) ∨ Wrote st st₁ v) := by
  rw [Artifact.store_eq] at h
  rcases h.of_request with ⟨rfl, rfl⟩ | ⟨now, later⟩
  · exact ⟨grown_refl _, .inl ⟨(Artifact.store_eq v).symm, rfl⟩⟩
  · change ComesTo surroundings
      (Artifact.describe v (st.answer (.writeArtifact v.key v.content v.status)).1)
      (st.answer (.writeArtifact v.key v.content v.status)).2 p st₁ at later
    rcases writeArtifact_cases st v.key v.content v.status with
      ⟨err, st', hrefused, hkept⟩ | ⟨q, st', hwritten, hplace, hadded⟩
    · rw [hrefused] at later
      obtain ⟨rfl, rfl⟩ := later.of_done
      exact ⟨hkept.grown, .inr (.inl ⟨err, rfl⟩)⟩
    · rw [hwritten] at later
      have place' : st'.place (v.key.contentKey v.status) = .ok q := by rw [hadded.1.1, hplace]
      obtain ⟨hspares, hend⟩ := comesTo_describe later place'
      refine ⟨hadded.trans_spares hspares, .inr ?_⟩
      rcases hend with hgrown | hfailed
      · exact .inr ⟨_, st', hwritten, hgrown⟩
      · exact .inl hfailed

variable {d : ArtifactDraft} {ds : List ArtifactDraft} {r : StorageRequest}
  {next : r.Reply → Activity Storage (Except StorageError (List Artifact))}

theorem comesTo_persistAll_cons
    (h : ComesTo surroundings (Artifact.persistAll (d :: ds)) st (.ask r next) st₁) :
    (∃ next', ComesTo surroundings (Artifact.persist d) st (.ask r next') st₁) ∨
      ∃ a st' next', ComesTo surroundings (Artifact.persist d) st (.done (.ok a)) st' ∧
        ComesTo surroundings (Artifact.persistAll ds) st' (.ask r next') st₁ := by
  rw [Artifact.persistAll] at h
  refine h.of_bind.imp id ?_
  rintro ⟨x, st', first, later⟩
  cases x with
  | error err => exact absurd later ComesTo.not_waiting
  | ok a =>
    rcases later.of_bind with ⟨next', others⟩ | ⟨y, st'', -, last⟩
    · exact ⟨a, st', next', first, others⟩
    · exact absurd last ComesTo.not_waiting

/-- Partway in storing drafts, nothing that was there is missing. -/
theorem comesTo_persistAll
    (h : ComesTo surroundings (Artifact.persistAll ds) st (.ask r next) st₁) : Grown st st₁ := by
  induction ds generalizing st next with
  | nil => exact absurd h ComesTo.not_waiting
  | cons d rest ih =>
    rcases comesTo_persistAll_cons h with ⟨next', first⟩ | ⟨a, st', next', first, others⟩
    · exact (comesTo_store first).1
    · exact (comesTo_store first).1.trans (ih others)

/-- Whoever is stopped in storing drafts has not written anything, or has written the first
draft. -/
theorem persistAll_interrupted
    (h : ComesTo surroundings (Artifact.persistAll ds) st (.ask r next) st₁) :
    st₁ = st ∨ ∃ d rest, ds = d :: rest ∧ Wrote st st₁ (.ofDraft d) := by
  cases ds with
  | nil => exact absurd h ComesTo.not_waiting
  | cons d rest =>
    rcases comesTo_persistAll_cons h with ⟨next', first⟩ | ⟨a, st', next', first, others⟩
    · rcases (comesTo_store first).2 with ⟨-, hsame⟩ | ⟨err, hdone⟩ | hwrote
      · exact .inl hsame
      · cases hdone
      · exact .inr ⟨d, rest, rfl, hwrote⟩
    · rcases (comesTo_store first).2 with ⟨hstart, -⟩ | ⟨err, hdone⟩ | hwrote
      · cases hstart
      · cases hdone
      · exact .inr ⟨d, rest, rfl, hwrote.trans (comesTo_persistAll others)⟩

end ArtifactStore

end PlaybookEngine
