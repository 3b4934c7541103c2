import PlaybookEngine.Proofs.Artifact.Entries

namespace PlaybookEngine

namespace ArtifactKey

variable {key : ArtifactKey}

theorem ofContentKey?_of_parts {capability file : List Char}
    (hcapability : Text.splitOn '/' key.capability.toList = [capability])
    (hfile : Text.splitOn '/' (key.id.toList ++ '.' :: key.extension.toList) = [file])
    (status : ContentStatus) :
    ofContentKey? (key.contentKey status) =
      if capability = [] then none
      else
        match Text.splitLast '.' file with
        | some (id, extension) =>
          if id = [] then none
          else some (⟨.ofList capability, .ofList id, .ofList extension⟩, status)
        | none => none := by
  have named : Named.ofText? (α := ContentStatus) (String.ofList (Named.text status).toList) =
      some status := by
    cases status <;> decide
  rw [ofContentKey?, Lane.splitOn_contentKey, hcapability, hfile]
  simp only [List.cons_append, List.nil_append, ne_eq, not_true_eq_false, false_or, named]
  split
  · rfl
  · cases Text.splitLast '.' file <;> rfl

theorem parts_of_readable {status : ContentStatus}
    (h : ofContentKey? (key.contentKey status) ≠ none) :
    ∃ capability file, Text.splitOn '/' key.capability.toList = [capability] ∧
      Text.splitOn '/' (key.id.toList ++ '.' :: key.extension.toList) = [file] := by
  rw [ofContentKey?, Lane.splitOn_contentKey] at h
  split at h
  · rename_i capability generated st file hparts
    have lengths := congrArg List.length hparts
    have hcapability := Text.length_splitOn '/' key.capability.toList
    have hname := Text.length_splitOn '/' (key.id.toList ++ '.' :: key.extension.toList)
    simp only [List.length_append, List.length_cons, List.length_nil] at lengths
    obtain ⟨a, ha⟩ : ∃ a, Text.splitOn '/' key.capability.toList = [a] :=
      List.length_eq_one_iff.mp (by omega)
    obtain ⟨c, hc⟩ : ∃ c, Text.splitOn '/' (key.id.toList ++ '.' :: key.extension.toList) = [c] :=
      List.length_eq_one_iff.mp (by omega)
    exact ⟨a, c, ha, hc⟩
  · exact absurd rfl h

/-- Whether a content key can be read does not depend on the status. -/
theorem readable_contentKey {status : ContentStatus}
    (h : ofContentKey? (key.contentKey status) ≠ none) (status' : ContentStatus) :
    ofContentKey? (key.contentKey status') ≠ none := by
  obtain ⟨capability, file, hcapability, hfile⟩ := parts_of_readable h
  rw [ofContentKey?_of_parts hcapability hfile] at h ⊢
  by_cases hempty : capability = []
  · rw [if_pos hempty] at h
    exact absurd rfl h
  · rw [if_neg hempty] at h ⊢
    cases hlast : Text.splitLast '.' file with
    | none =>
      rw [hlast] at h
      exact absurd rfl h
    | some parts =>
      rw [hlast] at h
      dsimp only at h ⊢
      by_cases hid : parts.1 = []
      · rw [if_pos hid] at h
        exact absurd rfl h
      · rw [if_neg hid]
        nofun

end ArtifactKey

namespace ArtifactStore

variable {now : Timestamp} {st : ArtifactStore}

/-- The store has two entries more: the content under the key of the artifact, and what is read
back as the artifact. -/
def Gains (st : ArtifactStore) (a : Artifact) (content : ByteArray) (st' : ArtifactStore) : Prop :=
  ∃ k p q side, ArtifactKey.ofContentKey? a.storageKey = some k ∧
    st.place a.storageKey = .ok p ∧ st.place k.1.metadataKey = .ok q ∧ p ≠ q ∧
    st.content? p = none ∧ st.content? q = none ∧
    (∀ r, st'.content? r =
      if r = p then some content else if r = q then some side else st.content? r) ∧
    st'.readMetadata a.storageKey = .ok a

/-- The content of the version can be written, but not be removed again. -/
def Strands (st : ArtifactStore) (v : Artifact.Version) : Prop :=
  ¬ st.Removable (v.key.contentKey v.status) ∧
    ∃ st', st.answer (.writeArtifact v.key v.content v.status) =
      (.ok (v.key.contentKey v.status), st')

/-- Both entries are there afterwards. If there is an error, the store is left as it was, or with
the content alone if that is `stranded`. -/
def Outcome (st : ArtifactStore) (content : ByteArray) (stranded : Prop) :
    Except StorageError Artifact × ArtifactStore → Prop
  | (.ok a, st') => ¬ stranded ∧ Gains st a content st'
  | (.error _, st') =>
    (¬ stranded → Kept st st') ∧ (stranded → ∃ p, Added st p content st')

theorem Added.not_kept {p : Place} {bytes : ByteArray} {st' : ArtifactStore}
    (h : Added st p bytes st') : ¬ Kept st st' := by
  intro hkept
  have there := h.2.2 p
  rw [hkept.2 p, h.2.1, if_pos rfl] at there
  cases there

theorem Added.trans_kept {st₁ st₂ : ArtifactStore} {p : Place} {bytes : ByteArray}
    (h : Added st p bytes st₁) (hkept : Kept st₁ st₂) : Added st p bytes st₂ :=
  ⟨⟨hkept.1.1.trans h.1.1, hkept.1.2.trans h.1.2⟩, h.2.1,
    fun q => (hkept.2 q).trans (h.2.2 q)⟩

/-- A version is stored with both entries, or with none, unless its content cannot be removed. -/
theorem run_store_outcome (st : ArtifactStore) (v : Artifact.Version)
    (hversion : v.version < 0x1_0000_0000) (hsize : v.content.size < 0x1_0000_0000_0000_0000)
    (hnow : now.Shown) :
    Outcome st v.content (Strands st v) (run now (Artifact.store v) st) := by
  rcases writeArtifact_cases st v.key v.content v.status with
    ⟨e, st₁, hcontent, hkept⟩ | ⟨p, st₁, hcontent, hplace, hadded⟩
  · rw [run_store_of_content_refused hcontent]
    refine ⟨fun _ => hkept, fun hstrands => ?_⟩
    obtain ⟨-, st', hwritten⟩ := hstrands
    rw [hcontent] at hwritten
    cases hwritten
  · rcases writeMetadata_cases st₁ (v.artifact (v.key.contentKey v.status) now) with
      ⟨e, st₂, hside, hkept⟩ | ⟨k, q, side, st₂, hside, hread, hplace', hadded', hback⟩
    · rw [run_store_of_metadata_refused hcontent hside]
      have both := hadded.trans_kept hkept
      have removable : st₂.Removable (v.key.contentKey v.status) ↔
          st.Removable (v.key.contentKey v.status) := by
        rw [both.1.2]
      constructor
      · intro hnot
        have hremovable : st₂.Removable (v.key.contentKey v.status) := by
          by_contra hno
          exact hnot ⟨fun h => hno (removable.mpr h), st₁, hcontent⟩
        have hplace₂ : st₂.place (v.key.contentKey v.status) = .ok p := by rw [both.1.1, hplace]
        obtain ⟨halike, hgone⟩ := removeArtifact_of_removable hremovable hplace₂
        refine ⟨⟨halike.1.trans both.1.1, halike.2.trans both.1.2⟩, fun r => ?_⟩
        rw [hgone]
        by_cases hr : r = p
        · rw [if_pos hr, hr, both.2.1]
        · rw [if_neg hr, both.2.2, if_neg hr]
      · intro hstrands
        rw [removeArtifact_of_not_removable fun h => hstrands.1 (removable.mp h)]
        exact ⟨p, both⟩
    · rw [run_store_of_ok hcontent hside]
      have hne : p ≠ q := by
        rintro rfl
        have filled := hadded.2.2 p
        rw [if_pos rfl, hadded'.2.1] at filled
        cases filled
      have free : st.content? q = none := by
        rw [← hadded'.2.1, hadded.2.2, if_neg hne.symm]
      have hremovable : st.Removable (v.key.contentKey v.status) :=
        removable_of_readable (Option.ne_none_iff_exists'.mpr ⟨k, hread⟩)
      refine ⟨fun hstrands => hstrands.1 hremovable, k, p, q, side, hread, hplace, ?_, hne,
        hadded.2.1, free, fun r => ?_, ?_⟩
      · rw [← hplace', hadded.1.1]
      · rw [hadded'.2.2, hadded.2.2]
        by_cases hr : r = q
        · rw [if_pos hr, hr, if_neg hne.symm, if_pos rfl]
        · rw [if_neg hr, if_neg hr]
      · exact hback ⟨hversion, hsize, hnow⟩

theorem run_readMetadata (key : String) (st : ArtifactStore) :
    run now (Storage.readMetadata key) st = (st.readMetadata key, st) := by
  change st.answer (.readMetadata key) = _
  exact answer_readMetadata st key

def versionKey (parent : Artifact) (version : Nat) : ArtifactKey :=
  ⟨parent.capability, artifactId parent.executionId parent.name version, parent.extension⟩

theorem run_freeVersion_eq (parent : Artifact) (left version : Nat) :
    run now (Artifact.freeVersion parent left version) st =
      match st.readMetadata ((versionKey parent version).contentKey .draft), left with
      | .error (.notFound _), _ => (.ok version, st)
      | .error e, _ => (.error e, st)
      | .ok _, 0 => (.error (.alreadyExists (versionKey parent version).metadataKey), st)
      | .ok _, left + 1 =>
        run now (Artifact.freeVersion parent left (Artifact.nextVersion version)) st := by
  cases left <;> rw [Artifact.freeVersion, run_bind, run_readMetadata, versionKey] <;>
    split <;> simp_all <;> rfl

theorem run_freeVersion_of_error {parent : Artifact} {version : Nat} {e : StorageError}
    (h : st.readMetadata ((versionKey parent version).contentKey .draft) = .error e)
    (now : Timestamp) (left : Nat) :
    (run now (Artifact.freeVersion parent left version) st).2 = st ∧
      ∀ w, (run now (Artifact.freeVersion parent left version) st).1 = .ok w →
        w = version ∧
          ArtifactKey.ofContentKey? ((versionKey parent w).contentKey .draft) ≠ none := by
  rw [run_freeVersion_eq, h]
  cases e
  case notFound =>
    refine ⟨rfl, fun w hw => ?_⟩
    cases hw
    exact ⟨rfl, readable_of_notFound h⟩
  all_goals exact ⟨rfl, nofun⟩

/-- Looking for a free version leaves the store as it is, and the keys of the version that it
finds can be read. -/
theorem run_freeVersion (now : Timestamp) (st : ArtifactStore) (parent : Artifact)
    {left version : Nat} (hleft : left ≤ Artifact.versionsAfter version) :
    (run now (Artifact.freeVersion parent left version) st).2 = st ∧
      ∀ w, (run now (Artifact.freeVersion parent left version) st).1 = .ok w →
        w ≤ max version Artifact.lastVersion ∧
          ArtifactKey.ofContentKey? ((versionKey parent w).contentKey .draft) ≠ none := by
  induction left generalizing version with
  | zero =>
    rcases hread : st.readMetadata ((versionKey parent version).contentKey .draft) with e | a
    · obtain ⟨same, found⟩ := run_freeVersion_of_error hread now 0
      refine ⟨same, fun w hw => ?_⟩
      obtain ⟨rfl, hreadable⟩ := found w hw
      exact ⟨Nat.le_max_left _ _, hreadable⟩
    · rw [run_freeVersion_eq, hread]
      exact ⟨rfl, nofun⟩
  | succ left ih =>
    rcases hread : st.readMetadata ((versionKey parent version).contentKey .draft) with e | a
    · obtain ⟨same, found⟩ := run_freeVersion_of_error hread now (left + 1)
      refine ⟨same, fun w hw => ?_⟩
      obtain ⟨rfl, hreadable⟩ := found w hw
      exact ⟨Nat.le_max_left _ _, hreadable⟩
    · rw [run_freeVersion_eq, hread]
      obtain ⟨later, hlast⟩ := Artifact.le_versionsAfter_next hleft
      obtain ⟨same, found⟩ := ih later
      refine ⟨same, fun w hw => ?_⟩
      obtain ⟨hle, hreadable⟩ := found w hw
      exact ⟨by omega, hreadable⟩

theorem run_refine_outcome {content : String} (hnow : now.Shown)
    (hsize : content.toUTF8.size < 0x1_0000_0000_0000_0000) (parentKey : String)
    (status : ContentStatus) :
    Outcome st content.toUTF8 False
      (run now (Artifact.refine parentKey content status) st) := by
  rw [Artifact.refine, run_bind, run_readMetadata]
  rcases st.readMetadata parentKey with e | parent
  · exact ⟨fun _ => kept_refl st, False.elim⟩
  · let next := Artifact.nextVersion parent.version
    obtain ⟨same, found⟩ :=
      run_freeVersion now st parent (Nat.le_refl (Artifact.versionsAfter next))
    change Outcome st content.toUTF8 False (run now
      (Artifact.freeVersion parent (Artifact.versionsAfter next) next >>= _) st)
    rw [run_bind, same]
    rcases hfound : (run now
        (Artifact.freeVersion parent (Artifact.versionsAfter next) next) st).1 with e | w
    · exact ⟨fun _ => kept_refl st, False.elim⟩
    · obtain ⟨hle, hreadable⟩ := found w hfound
      have hversion : w < 0x1_0000_0000 := by
        have hnext : next < 0x1_0000_0000 := Artifact.nextVersion_lt _
        rw [Artifact.lastVersion] at hle
        omega
      have stored := run_store_outcome st
        (Artifact.Version.ofParent parent w content status) hversion hsize hnow
      have kept : ¬ Strands st (Artifact.Version.ofParent parent w content status) := by
        intro hstrands
        exact hstrands.1 (removable_of_readable (ArtifactKey.readable_contentKey hreadable status))
      change Outcome st content.toUTF8 False
        (run now (Artifact.store (Artifact.Version.ofParent parent w content status)) st)
      rw [eq_false kept] at stored
      exact stored

/-- Keeping a draft or a new version is all or nothing, at a time that a clock can show and with
content whose size is a word; the exception is a draft whose content cannot be removed again. -/
theorem persist_and_refine_all_or_nothing (st : ArtifactStore) {now : Timestamp}
    (hnow : now.Shown) :
    (∀ d : ArtifactDraft, d.content.toUTF8.size < 0x1_0000_0000_0000_0000 →
      Outcome st d.content.toUTF8 (Strands st (.ofDraft d)) (run now (Artifact.persist d) st)) ∧
    ∀ parentKey content status, content.toUTF8.size < 0x1_0000_0000_0000_0000 →
      Outcome st content.toUTF8 False (run now (Artifact.refine parentKey content status) st) := by
  constructor
  · intro d hsize
    exact run_store_outcome st (.ofDraft d) (by decide : 1 < 0x1_0000_0000) hsize hnow
  · intro parentKey content status hsize
    exact run_refine_outcome hnow hsize parentKey status

def article : ArtifactDraft where
  capability := "seo"
  name := "article"
  extension := "md"
  content := "# Draft"
  contentStatus := .draft
  executionId := "exec-1"
  stepId := "rewrite"

theorem article_gained : (⟨0, 0⟩ : Timestamp).Shown ∧
    article.content.toUTF8.size < 0x1_0000_0000_0000_0000 ∧
    ∃ st', run ⟨0, 0⟩ (Artifact.persist article) (.memory .empty) =
        (.ok (article.artifact ⟨0, 0⟩), st') ∧
      Gains (.memory .empty) (article.artifact ⟨0, 0⟩) article.content.toUTF8 st' := by
  have hshown : (⟨0, 0⟩ : Timestamp).Shown := by decide
  have hsize : article.content.toUTF8.size < 0x1_0000_0000_0000_0000 := by decide
  have fits : article.Fits MemoryStore.empty.Taken :=
    ⟨"seo/metadata/exec-1-article-v1.json", by decide, not_not.mpr rfl, not_not.mpr rfl⟩
  obtain ⟨m', hrun, -⟩ := MemoryStore.persist_of_fits fits ⟨0, 0⟩
  have outcome := (persist_and_refine_all_or_nothing (.memory .empty) hshown).1 article hsize
  rw [hrun] at outcome
  exact ⟨hshown, hsize, _, hrun, outcome.2⟩

/-- An article whose name has a slash. -/
def draftArticle : ArtifactDraft := { article with name := "drafts/article" }

/-- In a store of files the content of a draft whose name has a slash stays, although its metadata
is refused. -/
theorem slashed_name_strands :
    ∃ err st', run ⟨0, 0⟩ (Artifact.persist draftArticle) (.files ⟨.empty⟩) = (.error err, st') ∧
      ¬ Kept (.files ⟨.empty⟩) st' := by
  have unreadable : ArtifactKey.ofContentKey? draftArticle.contentKey = none := by decide
  have created : (FileStore.create ⟨.empty⟩ draftArticle.contentKey
      draftArticle.content.toUTF8).1 = .ok () := rfl
  rcases FileStore.create_cases ⟨.empty⟩ draftArticle.contentKey draftArticle.content.toUTF8 with
    ⟨e, f, h, -⟩ | ⟨p, f, h, -, free, added⟩
  · rw [h] at created
    cases created
  · have written := FileStore.writeArtifact_of_created h
    have refused := f.writeMetadata_of_unreadable (a := draftArticle.artifact ⟨0, 0⟩) unreadable
    have run := run_store_of_metadata_refused (v := .ofDraft draftArticle) written refused
    have stays : ((ArtifactStore.files f).answer (.removeArtifact draftArticle.contentKey)).2 =
        .files f :=
      removeArtifact_of_not_removable (not_not.mpr unreadable)
    have hadded : Added (.files ⟨.empty⟩) p draftArticle.content.toUTF8 (.files f) :=
      ⟨⟨rfl, rfl⟩, free, added⟩
    exact ⟨_, .files f, run.trans (Prod.ext rfl stays), hadded.not_kept⟩

end ArtifactStore

end PlaybookEngine
