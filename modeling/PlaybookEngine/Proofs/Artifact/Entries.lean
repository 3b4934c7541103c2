import PlaybookEngine.Proofs.Artifact.Agreement
import PlaybookEngine.Proofs.Artifact.Metadata
import PlaybookEngine.Proofs.Artifact.Persistence

namespace PlaybookEngine

namespace FileTree

theorem content?_of_find {t : FileTree} {p : Path} (h : ∀ bytes, t.find p ≠ .file bytes) :
    t.content? p = none := by
  cases hc : t.content? p with
  | none => rfl
  | some bytes => exact absurd (by rw [find, hc]) (h bytes)

theorem find_of_content? {t : FileTree} {p : Path} {bytes : ByteArray}
    (h : t.content? p = some bytes) : t.find p = .file bytes := by
  rw [find, h]

theorem content?_addDirectories {t t' : FileTree} {ps : List Path}
    (h : t.addDirectories ps = some t') (p : Path) : t'.content? p = t.content? p := by
  rw [content?, (addDirectories_eq_some h).1, content?]

end FileTree

namespace FileStore

variable (s : FileStore) {key : String}

/-- A file is made where there was none, or no file changes. -/
theorem create_cases (key : String) (bytes : ByteArray) :
    (∃ e s', s.create key bytes = (.error e, s') ∧
      ∀ q, s'.tree.content? q = s.tree.content? q) ∨
    ∃ p s', s.create key bytes = (.ok (), s') ∧ path key = .ok p ∧ s.tree.content? p = none ∧
      ∀ q, s'.tree.content? q = if q = p then some bytes else s.tree.content? q := by
  unfold create
  cases hpath : path key with
  | error e => exact .inl ⟨e, s, rfl, fun _ => rfl⟩
  | ok p =>
    dsimp only
    cases hadd : s.tree.addDirectories (Path.ancestors p) with
    | none => exact .inl ⟨_, s, rfl, fun _ => rfl⟩
    | some tree =>
      have same := FileTree.content?_addDirectories hadd
      dsimp only
      split
      · exact .inl ⟨_, ⟨tree⟩, rfl, same⟩
      · cases hfind : tree.find p with
        | file content => exact .inl ⟨_, ⟨tree⟩, rfl, same⟩
        | directory => exact .inl ⟨_, ⟨tree⟩, rfl, same⟩
        | blocked => exact .inl ⟨_, ⟨tree⟩, rfl, same⟩
        | missing =>
          have free : tree.content? p = none :=
            FileTree.content?_of_find fun content h => by rw [hfind] at h; cases h
          refine .inr ⟨p, ⟨tree.put p bytes⟩, rfl, rfl, (same p).symm.trans free, fun q => ?_⟩
          rw [FileTree.content?_put, same]

theorem content?_remove {p : Path} {k : ArtifactKey × ContentStatus}
    (hread : ArtifactKey.ofContentKey? key = some k) (hpath : path key = .ok p) (q : Path) :
    (s.remove key).2.tree.content? q = if q = p then none else s.tree.content? q := by
  have absent (h : ∀ bytes, s.tree.find p ≠ .file bytes) :
      s.tree.content? q = if q = p then none else s.tree.content? q := by
    split
    · rename_i hq
      rw [hq, FileTree.content?_of_find h]
    · rfl
  unfold remove
  rw [ArtifactKey.read_eq_ok.mpr hread, hpath]
  dsimp only
  cases hfind : s.tree.find p with
  | file bytes => exact FileTree.content?_remove s.tree p q
  | missing => exact absent fun bytes h => by rw [hfind] at h; cases h
  | directory => exact absent fun bytes h => by rw [hfind] at h; cases h
  | blocked => exact absent fun bytes h => by rw [hfind] at h; cases h

theorem remove_of_unreadable (hread : ArtifactKey.ofContentKey? key = none) :
    (s.remove key).2 = s := by
  rw [remove, ArtifactKey.read, hread]

theorem writeArtifact_of_created {s s' : FileStore} {key : ArtifactKey} {content : ByteArray}
    {status : ContentStatus} (h : s.create (key.contentKey status) content = (.ok (), s')) :
    (ArtifactStore.files s).answer (.writeArtifact key content status) =
      (.ok (key.contentKey status), .files s') := by
  rw [ArtifactStore.answer, answer, h]
  rfl

theorem readMetadata_of_unreadable (hread : ArtifactKey.ofContentKey? key = none) :
    s.readMetadata key = .error (.invalidKey key) := by
  rw [readMetadata, ArtifactKey.read, hread]
  rfl

theorem writeMetadata_of_unreadable {a : Artifact}
    (hread : ArtifactKey.ofContentKey? a.storageKey = none) :
    (ArtifactStore.files s).answer (.writeMetadata a) =
      (.error (.invalidKey a.storageKey), .files s) := by
  rw [ArtifactStore.answer, answer, ArtifactKey.read, hread]
  rfl

theorem readMetadata_of_content {s : FileStore} {p : Path} {k : ArtifactKey × ContentStatus}
    {bytes : ByteArray} (hread : ArtifactKey.ofContentKey? key = some k)
    (hpath : path k.1.metadataKey = .ok p) (hcontent : s.tree.content? p = some bytes) :
    s.readMetadata key = Artifact.ofBytes bytes := by
  have opened : s.read k.1.metadataKey = .ok bytes := by
    rw [read, hpath]
    dsimp only [Bind.bind, Except.bind]
    rw [FileTree.find_of_content? hcontent]
  rw [readMetadata, ArtifactKey.read_eq_ok.mpr hread]
  dsimp only [Bind.bind, Except.bind]
  rw [opened]

end FileStore

namespace MemoryStore

variable {m : MemoryStore} {key : String}

theorem readMetadata_of_unreadable (m : MemoryStore)
    (hread : ArtifactKey.ofContentKey? key = none) :
    m.readMetadata key = .error (.invalidKey key) := by
  rw [readMetadata, ArtifactKey.read, hread]
  rfl

theorem readMetadata_of_entry {k : ArtifactKey × ContentStatus} {bytes : ByteArray}
    (hread : ArtifactKey.ofContentKey? key = some k)
    (hentry : Fields.get? k.1.metadataKey m.entries = some bytes) :
    m.readMetadata key = Artifact.ofBytes bytes := by
  rw [readMetadata, ArtifactKey.read_eq_ok.mpr hread]
  dsimp only [Bind.bind, Except.bind]
  rw [hentry]

end MemoryStore

namespace ArtifactStore

/-- Where an entry lies: under a key in memory, at a path in a tree of files. -/
abbrev Place := List String

/-- The bytes under a key in memory. -/
def bytesUnder (m : MemoryStore) : Place → Option ByteArray
  | [key] => Fields.get? key m.entries
  | _ => none

def content? : ArtifactStore → Place → Option ByteArray
  | .memory m => bytesUnder m
  | .files f => f.tree.content?

/-- The place that a key names. -/
def place (s : ArtifactStore) (key : String) : Except StorageError Place :=
  match s with
  | .files _ => FileStore.path key
  | _ => .ok [key]

/-- The store can remove what lies under the key. -/
def Removable (s : ArtifactStore) (key : String) : Prop :=
  match s with
  | .files _ => ArtifactKey.ofContentKey? key ≠ none
  | _ => True

/-- Stores that treat keys in one way. -/
def Alike (s s' : ArtifactStore) : Prop := s'.place = s.place ∧ s'.Removable = s.Removable

/-- The same entries. -/
def Kept (s s' : ArtifactStore) : Prop := Alike s s' ∧ ∀ q, s'.content? q = s.content? q

/-- One entry more. -/
def Added (s : ArtifactStore) (p : Place) (bytes : ByteArray) (s' : ArtifactStore) : Prop :=
  Alike s s' ∧ s.content? p = none ∧
    ∀ q, s'.content? q = if q = p then some bytes else s.content? q

theorem removable_of_readable {s : ArtifactStore} {key : String}
    (h : ArtifactKey.ofContentKey? key ≠ none) : s.Removable key := by
  cases s with
  | memory m => trivial
  | files f => exact h

theorem kept_refl (s : ArtifactStore) : Kept s s := ⟨⟨rfl, rfl⟩, fun _ => rfl⟩

theorem create_memory_cases (m : MemoryStore) (key : String) (bytes : ByteArray) :
    (∃ e, m.create key bytes = (.error e, m)) ∨
      ∃ m', m.create key bytes = (.ok (), m') ∧ bytesUnder m [key] = none ∧
        ∀ q, bytesUnder m' q = if q = [key] then some bytes else bytesUnder m q := by
  rw [MemoryStore.create]
  cases hget : Fields.get? key m.entries with
  | some old => exact .inl ⟨_, rfl⟩
  | none =>
    refine .inr ⟨_, rfl, hget, fun q => ?_⟩
    rcases q with _ | ⟨k, _ | ⟨j, rest⟩⟩
    · rfl
    · rw [bytesUnder, Fields.get?_insert]
      by_cases hk : key = k
      · rw [if_pos hk, if_pos (by rw [hk])]
      · rw [if_neg hk, if_neg (fun h => hk (List.cons.inj h).1.symm)]
        rfl
    · rw [if_neg (by simp)]
      rfl

theorem writeArtifact_memory_cases (m : MemoryStore) (key : ArtifactKey) (content : ByteArray)
    (status : ContentStatus) :
    (∃ e, m.answer (.writeArtifact key content status) = (.error e, m)) ∨
      ∃ m', m.answer (.writeArtifact key content status) = (.ok (key.contentKey status), m') ∧
        bytesUnder m [key.contentKey status] = none ∧
        ∀ q, bytesUnder m' q = if q = [key.contentKey status] then some content
          else bytesUnder m q := by
  rw [MemoryStore.answer]
  rcases create_memory_cases m (key.contentKey status) content with ⟨e, h⟩ | ⟨m', h, free, added⟩
  · rw [h]
    exact .inl ⟨e, rfl⟩
  · rw [h]
    exact .inr ⟨m', rfl, free, added⟩

/-- Content is written under its key, in a place that was free, or nothing changes. -/
theorem writeArtifact_cases (s : ArtifactStore) (key : ArtifactKey) (content : ByteArray)
    (status : ContentStatus) :
    (∃ e s', s.answer (.writeArtifact key content status) = (.error e, s') ∧ Kept s s') ∨
      ∃ p s', s.answer (.writeArtifact key content status) = (.ok (key.contentKey status), s') ∧
        s.place (key.contentKey status) = .ok p ∧ Added s p content s' := by
  cases s with
  | memory m =>
    rcases writeArtifact_memory_cases m key content status with ⟨e, h⟩ | ⟨m', h, free, added⟩
    · have answered := congrArg (Prod.map id ArtifactStore.memory) h
      exact .inl ⟨e, .memory m, answered, kept_refl _⟩
    · have answered := congrArg (Prod.map id ArtifactStore.memory) h
      exact .inr ⟨_, .memory m', answered, rfl, ⟨rfl, rfl⟩, free, added⟩
  | files f =>
    rcases f.create_cases (key.contentKey status) content with
      ⟨e, f', h, same⟩ | ⟨p, f', h, hpath, free, added⟩
    · refine .inl ⟨e, .files f', ?_, ⟨rfl, rfl⟩, same⟩
      rw [answer, FileStore.answer, h]
      rfl
    · have answered := FileStore.writeArtifact_of_created h
      exact .inr ⟨p, .files f', answered, hpath, ⟨rfl, rfl⟩, free, added⟩

theorem answer_readMetadata (s : ArtifactStore) (key : String) :
    s.answer (.readMetadata key) = (s.readMetadata key, s) := by
  cases s <;> rfl

/-- A store that says that there is no metadata has read the key. -/
theorem readable_of_notFound {s : ArtifactStore} {key missing : String}
    (h : s.readMetadata key = .error (.notFound missing)) :
    ArtifactKey.ofContentKey? key ≠ none := by
  intro hread
  have answered : s.readMetadata key = .error (.invalidKey key) := by
    cases s with
    | memory m => exact MemoryStore.readMetadata_of_unreadable m hread
    | files f => exact f.readMetadata_of_unreadable hread
  rw [answered] at h
  cases h

/-- Metadata is written in a place that was free, beside the content that the artifact's key names,
and read back from there, or nothing changes. -/
theorem writeMetadata_cases (s : ArtifactStore) (a : Artifact) :
    (∃ e s', s.answer (.writeMetadata a) = (.error e, s') ∧ Kept s s') ∨
      ∃ k p bytes s', s.answer (.writeMetadata a) = (.ok (), s') ∧
        ArtifactKey.ofContentKey? a.storageKey = some k ∧ s.place k.1.metadataKey = .ok p ∧
        Added s p bytes s' ∧ (a.Sound → s'.readMetadata a.storageKey = .ok a) := by
  cases s with
  | memory m =>
    cases hread : ArtifactKey.ofContentKey? a.storageKey with
    | none =>
      have refused := MemoryStore.writeMetadata_of_unreadable (m := m) hread
      exact .inl ⟨.invalidKey a.storageKey, .memory m, refused, kept_refl _⟩
    | some k =>
      have written := MemoryStore.writeMetadata_eq (m := m) hread
      rcases create_memory_cases m k.1.metadataKey a.encode.compact.toUTF8 with
        ⟨e, h⟩ | ⟨m', h, free, added⟩
      · rw [h] at written
        exact .inl ⟨e, _, written, kept_refl _⟩
      · rw [h] at written
        refine .inr ⟨k, [k.1.metadataKey], _, .memory m', written, rfl, rfl,
          ⟨⟨rfl, rfl⟩, free, added⟩, fun hsound => ?_⟩
        have there : Fields.get? k.1.metadataKey m'.entries = some a.encode.compact.toUTF8 :=
          (added [k.1.metadataKey]).trans (if_pos rfl)
        exact (MemoryStore.readMetadata_of_entry hread there).trans
          (Artifact.ofBytes_encode hsound).1
  | files f =>
    cases hread : ArtifactKey.ofContentKey? a.storageKey with
    | none =>
      have refused := f.writeMetadata_of_unreadable hread
      exact .inl ⟨.invalidKey a.storageKey, .files f, refused, kept_refl _⟩
    | some k =>
      have written : (ArtifactStore.files f).answer (.writeMetadata a) =
          Prod.map id .files (f.create k.1.metadataKey a.encode.pretty.toUTF8) := by
        rw [answer, FileStore.answer, ArtifactKey.read_eq_ok.mpr hread]
        rfl
      rcases f.create_cases k.1.metadataKey a.encode.pretty.toUTF8 with
        ⟨e, f', h, same⟩ | ⟨p, f', h, hpath, free, added⟩
      · rw [h] at written
        exact .inl ⟨e, .files f', written, ⟨rfl, rfl⟩, same⟩
      · rw [h] at written
        refine .inr ⟨k, p, _, .files f', written, rfl, hpath, ⟨⟨rfl, rfl⟩, free, added⟩,
          fun hsound => ?_⟩
        have there : f'.tree.content? p = some a.encode.pretty.toUTF8 :=
          (added p).trans (if_pos rfl)
        exact (FileStore.readMetadata_of_content hread hpath there).trans
          (Artifact.ofBytes_encode hsound).2

theorem bytesUnder_erase (m : MemoryStore) (key : String) (q : Place) :
    bytesUnder ⟨Fields.erase key m.entries⟩ q = if q = [key] then none else bytesUnder m q := by
  rcases q with _ | ⟨k, _ | ⟨j, rest⟩⟩
  · rfl
  · rw [bytesUnder, Fields.get?_erase]
    by_cases hk : k = key
    · rw [if_pos hk, if_pos (by rw [hk])]
    · rw [if_neg hk, if_neg (fun h => hk (List.cons.inj h).1)]
      rfl
  · rw [if_neg (by simp)]
    rfl

theorem removeArtifact_of_removable {s : ArtifactStore} {key : String} {p : Place}
    (hremovable : s.Removable key) (hplace : s.place key = .ok p) :
    Alike s (s.answer (.removeArtifact key)).2 ∧
      ∀ q, (s.answer (.removeArtifact key)).2.content? q =
        if q = p then none else s.content? q := by
  cases s with
  | memory m =>
    obtain rfl : [key] = p := Except.ok.inj hplace
    exact ⟨⟨rfl, rfl⟩, bytesUnder_erase m key⟩
  | files f =>
    obtain ⟨k, hread⟩ := Option.ne_none_iff_exists'.mp hremovable
    exact ⟨⟨rfl, rfl⟩, f.content?_remove hread hplace⟩

theorem removeArtifact_of_not_removable {s : ArtifactStore} {key : String}
    (h : ¬ s.Removable key) : (s.answer (.removeArtifact key)).2 = s := by
  cases s with
  | memory m => exact absurd trivial h
  | files f => exact congrArg ArtifactStore.files (f.remove_of_unreadable (not_not.mp h))

end ArtifactStore

end PlaybookEngine
