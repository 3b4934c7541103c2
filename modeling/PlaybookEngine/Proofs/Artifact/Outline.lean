import PlaybookEngine.Proofs.Artifact.Store
import PlaybookEngine.Proofs.Workflow.Untimed

namespace PlaybookEngine

theorem Fields.mapValues_insert {α β : Type} (f : α → β) (k : String) (v : α) (fs : Fields α) :
    mapValues f (insert k v fs) = insert k (f v) (mapValues f fs) := by
  induction fs with
  | nil => rfl
  | cons q rest ih =>
    obtain ⟨j, w⟩ := q
    rw [mapValues] at ih
    simp only [insert, mapValues, List.map_cons]
    split
    · rfl
    · split
      · rfl
      · simp only [List.map_cons, ih]
        rfl

theorem Fields.mapValues_erase {α β : Type} (f : α → β) (k : String) (fs : Fields α) :
    mapValues f (erase k fs) = erase k (mapValues f fs) := by
  simp only [mapValues, erase, List.filter_map]
  rfl

namespace MemoryStore

def outline (s : MemoryStore) : MemoryStore := ⟨Fields.mapValues (fun _ => .empty) s.entries⟩

theorem create_outline (s : MemoryStore) (key : String) (bytes : ByteArray) :
    s.outline.create key .empty = ((s.create key bytes).1, (s.create key bytes).2.outline) := by
  unfold create outline
  rw [Fields.get?_mapValues]
  cases Fields.get? key s.entries with
  | some old => rfl
  | none =>
    dsimp only [Option.map_none]
    rw [Fields.mapValues_insert]

end MemoryStore

namespace FileTree

def outline (t : FileTree) : FileTree := { t with files := t.files.map fun x => (x.1, .empty) }

theorem content?_outline (t : FileTree) (p : Path) :
    t.outline.content? p = (t.content? p).map fun _ => .empty := by
  unfold content? outline
  dsimp only
  induction t.files with
  | nil => rfl
  | cons x rest ih =>
    obtain ⟨q, bytes⟩ := x
    rw [List.map_cons, List.lookup_cons, List.lookup_cons]
    cases p == q with
    | true => rfl
    | false => exact ih

theorem isFile_outline (t : FileTree) (p : Path) : t.outline.isFile p = t.isFile p := by
  rw [isFile, content?_outline, Option.isSome_map, isFile]

theorem find_outline (t : FileTree) (p : Path) :
    t.outline.find p =
      match t.find p with
      | .file _ => .file .empty
      | found => found := by
  have files : t.outline.isFile = t.isFile := funext t.isFile_outline
  rw [find, find, content?_outline, files]
  cases t.content? p with
  | some bytes => rfl
  | none =>
    dsimp only [Option.map_none]
    rw [show t.outline.isDirectory p = t.isDirectory p from rfl,
      show t.outline.stopsAtLongName p = t.stopsAtLongName p from rfl]
    split
    · rfl
    · split <;> rfl

theorem addDirectories_outline (t : FileTree) (ps : List Path) :
    t.outline.addDirectories ps = (t.addDirectories ps).map outline := by
  rw [addDirectories, addDirectories]
  simp only [isFile_outline]
  split
  · rfl
  · rfl

theorem filter_outline (t : FileTree) (p : Path) :
    t.outline.files.filter (·.1 ≠ p) =
      (t.files.filter (·.1 ≠ p)).map fun x => (x.1, ByteArray.empty) := by
  rw [outline, List.filter_map]
  rfl

theorem put_outline (t : FileTree) (p : Path) (bytes : ByteArray) :
    t.outline.put p .empty = (t.put p bytes).outline := by
  rw [put, filter_outline]
  rfl

theorem remove_outline (t : FileTree) (p : Path) :
    t.outline.remove p = (t.remove p).outline := by
  rw [remove, filter_outline]
  rfl

end FileTree

namespace FileStore

def outline (s : FileStore) : FileStore := ⟨s.tree.outline⟩

theorem create_outline (s : FileStore) (key : String) (bytes : ByteArray) :
    s.outline.create key .empty = ((s.create key bytes).1, (s.create key bytes).2.outline) := by
  unfold create
  cases path key with
  | error e => rfl
  | ok p =>
    dsimp only [outline]
    rw [FileTree.addDirectories_outline]
    cases s.tree.addDirectories (Path.ancestors p) with
    | none => rfl
    | some tree =>
      dsimp only [Option.map_some]
      split
      · rfl
      · rw [FileTree.find_outline]
        cases tree.find p with
        | file old => rfl
        | directory => rfl
        | blocked => rfl
        | missing =>
          dsimp only
          rw [FileTree.put_outline tree p bytes]

theorem remove_outline (s : FileStore) (key : String) :
    s.outline.remove key = ((s.remove key).1, (s.remove key).2.outline) := by
  unfold remove
  cases ArtifactKey.read key with
  | error e => rfl
  | ok k =>
    cases path key with
    | error e => rfl
    | ok p =>
      dsimp only [outline]
      rw [FileTree.find_outline]
      cases s.tree.find p with
      | file old =>
        dsimp only
        rw [FileTree.remove_outline]
      | directory => rfl
      | blocked => rfl
      | missing => rfl

end FileStore

namespace ArtifactStore

def outline : ArtifactStore → ArtifactStore
  | .memory m => .memory m.outline
  | .files f => .files f.outline

/-- A reply, and the outline of the store after it. -/
def seen {α : Type} (x : α × ArtifactStore) : α × ArtifactStore := (x.1, x.2.outline)

theorem writeArtifact_outline (st : ArtifactStore) (k : ArtifactKey) (content : ByteArray)
    (status : ContentStatus) :
    st.outline.answer (.writeArtifact k .empty status) =
      seen (st.answer (.writeArtifact k content status)) := by
  cases st with
  | memory m =>
    simp only [outline, answer, MemoryStore.answer,
      MemoryStore.create_outline m (k.contentKey status) content]
    rfl
  | files f =>
    simp only [outline, answer, FileStore.answer,
      FileStore.create_outline f (k.contentKey status) content]
    rfl

theorem removeArtifact_outline (st : ArtifactStore) (key : String) :
    st.outline.answer (.removeArtifact key) = seen (st.answer (.removeArtifact key)) := by
  cases st with
  | memory m =>
    simp only [outline, answer, MemoryStore.answer, MemoryStore.outline, ← Fields.mapValues_erase]
    rfl
  | files f =>
    simp only [outline, answer, FileStore.answer, FileStore.remove_outline]
    rfl

/-- What a store answers to metadata and its outline afterwards: both follow from its outline. -/
def describe (st : ArtifactStore) (key : String) : Except StorageError Unit × ArtifactStore :=
  match st with
  | .memory m =>
    match ArtifactKey.read key with
    | .error e => (.error e, .memory m)
    | .ok (k, _) => ((m.create k.metadataKey .empty).1, .memory (m.create k.metadataKey .empty).2)
  | .files f =>
    match ArtifactKey.read key with
    | .error e => (.error e, .files f)
    | .ok (k, _) => ((f.create k.metadataKey .empty).1, .files (f.create k.metadataKey .empty).2)

theorem writeMetadata_outline (st : ArtifactStore) (a : Artifact) :
    st.outline.describe a.storageKey = seen (st.answer (.writeMetadata a)) := by
  cases st with
  | memory m =>
    simp only [outline, describe, answer, MemoryStore.answer]
    cases ArtifactKey.read a.storageKey with
    | error e => rfl
    | ok k =>
      dsimp only
      rw [MemoryStore.create_outline m k.1.metadataKey a.encode.compact.toUTF8]
      rfl
  | files f =>
    simp only [outline, describe, answer, FileStore.answer]
    cases ArtifactKey.read a.storageKey with
    | error e => rfl
    | ok k =>
      dsimp only
      rw [FileStore.create_outline f k.1.metadataKey a.encode.pretty.toUTF8]
      rfl

variable {st st' : ArtifactStore}

/-- A stored version, or the refusal, is the same on stores of one outline up to the time. -/
theorem run_store_congr (h : st.outline = st'.outline) (now now' : Timestamp)
    (v : Artifact.Version) :
    (run now (Artifact.store v) st).1.map Artifact.untimed =
        (run now' (Artifact.store v) st').1.map Artifact.untimed ∧
      (run now (Artifact.store v) st).2.outline = (run now' (Artifact.store v) st').2.outline := by
  have written := (writeArtifact_outline st v.key v.content v.status).symm.trans
    (h ▸ writeArtifact_outline st' v.key v.content v.status)
  rcases hw : st.answer (.writeArtifact v.key v.content v.status) with ⟨x, st₁⟩
  rcases hw' : st'.answer (.writeArtifact v.key v.content v.status) with ⟨x', st₁'⟩
  rw [hw, hw'] at written
  obtain ⟨rfl, h₁⟩ := Prod.mk.inj written
  cases x with
  | error err =>
    rw [run_store_of_content_refused hw, run_store_of_content_refused hw']
    exact ⟨rfl, h₁⟩
  | ok key =>
    have described := (writeMetadata_outline st₁ (v.artifact key now)).symm.trans
      (h₁ ▸ writeMetadata_outline st₁' (v.artifact key now'))
    rcases hd : st₁.answer (.writeMetadata (v.artifact key now)) with ⟨y, st₂⟩
    rcases hd' : st₁'.answer (.writeMetadata (v.artifact key now')) with ⟨y', st₂'⟩
    rw [hd, hd'] at described
    obtain ⟨rfl, h₂⟩ := Prod.mk.inj described
    cases y with
    | ok u =>
      rw [run_store_of_ok hw hd, run_store_of_ok hw' hd']
      exact ⟨rfl, h₂⟩
    | error err =>
      rw [run_store_of_metadata_refused hw hd, run_store_of_metadata_refused hw' hd']
      have removed := (removeArtifact_outline st₂ key).symm.trans
        (h₂ ▸ removeArtifact_outline st₂' key)
      exact ⟨rfl, congrArg Prod.snd removed⟩

theorem persistAll_congr (h : st.outline = st'.outline) (now now' : Timestamp)
    (ds : List ArtifactDraft) :
    (st.persistAll now ds).1.map (List.map Artifact.untimed) =
      (st'.persistAll now' ds).1.map (List.map Artifact.untimed) := by
  induction ds generalizing st st' with
  | nil => rfl
  | cons d rest ih =>
    obtain ⟨hd, hst⟩ := run_store_congr h now now' (.ofDraft d)
    rw [persistAll, persistAll, Artifact.persist]
    revert hd hst
    rcases run now (Artifact.store (.ofDraft d)) st with ⟨x, st₁⟩
    rcases run now' (Artifact.store (.ofDraft d)) st' with ⟨x', st₁'⟩
    intro hd hst
    rcases cases_of_map_eq hd with ⟨err, rfl, rfl⟩ | ⟨a, a', rfl, rfl, first⟩
    · rfl
    · have others := ih hst
      dsimp only at others ⊢
      rcases cases_of_map_eq others with ⟨err, hx, hx'⟩ | ⟨as, as', hx, hx', tail⟩
      · rw [hx, hx']
        rfl
      · rw [hx, hx']
        simp [Except.map, first, tail]

end ArtifactStore

end PlaybookEngine
