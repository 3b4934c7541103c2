import PlaybookEngine.Proofs.Artifact.Places
import Mathlib.Data.Option.Basic

namespace PlaybookEngine

namespace FileStore

variable {s : FileStore} {key : String} {p : Path}

/-- An entry is made where there was none; otherwise it exists already. -/
theorem create_named (shaped : s.tree.Shaped) (named : Names key p) (usable : p.Usable)
    (bytes : ByteArray) :
    ∃ s', s'.tree.Shaped ∧
      ((s.tree.content? p ≠ none ∧ s.create key bytes = (.error (.alreadyExists key), s') ∧
        ∀ q, s'.tree.content? q = s.tree.content? q) ∨
      (s.tree.content? p = none ∧ s.create key bytes = (.ok (), s') ∧
        ∀ q, s'.tree.content? q = if q = p then some bytes else s.tree.content? q)) := by
  obtain ⟨tree, hadd, shaped'⟩ := shaped.addDirectories named.entry usable
  have same := FileTree.content?_addDirectories hadd
  have found := shaped'.find named.entry usable
  unfold create
  rw [named.path]
  dsimp only
  rw [hadd]
  dsimp only
  rw [if_neg (Bool.eq_false_iff.mp named.file), found, same]
  cases hc : s.tree.content? p with
  | some old => exact ⟨⟨tree⟩, shaped', .inl ⟨nofun, rfl, same⟩⟩
  | none =>
    refine ⟨⟨tree.put p bytes⟩, shaped'.put named.entry bytes, .inr ⟨rfl, rfl, fun q => ?_⟩⟩
    rw [FileTree.content?_put, same]

theorem read_named (shaped : s.tree.Shaped) (named : Names key p) (usable : p.Usable) :
    s.read key = match s.tree.content? p with
      | some bytes => .ok bytes
      | none => .error (.notFound key) := by
  rw [read, named.path]
  dsimp only [Bind.bind, Except.bind]
  rw [shaped.find named.entry usable]
  cases s.tree.content? p <;> rfl

theorem contains_named (shaped : s.tree.Shaped) (named : Names key p) (usable : p.Usable) :
    s.contains key = .ok (s.tree.content? p).isSome := by
  rw [contains, named.path]
  dsimp only [Bind.bind, Except.bind]
  rw [shaped.find named.entry usable]
  cases s.tree.content? p with
  | none => rfl
  | some bytes =>
    dsimp only
    rw [if_neg (Bool.eq_false_iff.mp named.file)]
    rfl

theorem remove_named (shaped : s.tree.Shaped) (named : Names key p) (usable : p.Usable)
    {k : ArtifactKey × ContentStatus} (hread : ArtifactKey.ofContentKey? key = some k) :
    (s.remove key).1 = .ok () ∧ (s.remove key).2.tree.Shaped := by
  rw [remove, ArtifactKey.read_eq_ok.mpr hread, named.path]
  dsimp only
  rw [shaped.find named.entry usable]
  cases s.tree.content? p with
  | none => exact ⟨rfl, shaped⟩
  | some bytes => exact ⟨rfl, shaped.remove p⟩

end FileStore

namespace ArtifactStore

/-- What the two stores keep under one key when they were asked these requests: the same content, or
metadata of the same artifact. -/
inductive Stored (asked : StoreRequest → Prop) (key : String) : ByteArray → ByteArray → Prop
  | content {k : ArtifactKey} {status : ContentStatus} {bytes : ByteArray}
    (write : asked (.writeArtifact k bytes status)) (key_eq : k.contentKey status = key)
    (readable : ArtifactKey.ofContentKey? key ≠ none) : Stored asked key bytes bytes
  | metadata {a : Artifact} (write : asked (.writeMetadata a))
    (side : ArtifactKey.side? a.storageKey = some key) (sized : a.Sized) :
    Stored asked key a.encode.compact.toUTF8 a.encode.pretty.toUTF8

theorem Stored.eq_of_readable {asked : StoreRequest → Prop} {key : String}
    {bytes bytes' : ByteArray} (h : Stored asked key bytes bytes') {k : ArtifactKey × ContentStatus}
    (hread : ArtifactKey.ofContentKey? key = some k) : bytes' = bytes := by
  cases h with
  | content => rfl
  | metadata _ side =>
    have readable : ArtifactKey.side? key = some k.1.metadataKey := congrArg (Option.map _) hread
    exact absurd ⟨_, side⟩ (ArtifactKey.not_isSide_of_side readable)

/-- Metadata reads back as one artifact. -/
theorem Stored.ofBytes_eq {asked : StoreRequest → Prop} {key : String} {bytes bytes' : ByteArray}
    (h : Stored asked key bytes bytes') : Artifact.ofBytes bytes' = Artifact.ofBytes bytes := by
  cases h with
  | content => rfl
  | metadata _ _ sized => exact Artifact.ofBytes_pretty sized

/-- The store in memory and the store of files hold the same entries. -/
structure Matches (asked : StoreRequest → Prop) (m : MemoryStore) (s : FileStore) : Prop where
  shaped : s.tree.Shaped
  entries : ∀ key p, FileStore.Names key p →
    Option.Rel (Stored asked key) (Fields.get? key m.entries) (s.tree.content? p)
  keys : ∀ key, m.Taken key → ∃ p, FileStore.Names key p
  files : ∀ p, s.tree.content? p ≠ none → ∃ key, FileStore.Names key p

variable {asked : StoreRequest → Prop} {m : MemoryStore} {s s' : FileStore} {key : String}
variable {p : Path} {bytes bytes' : ByteArray}

theorem matches_empty : Matches asked .empty ⟨.empty⟩ :=
  ⟨FileTree.shaped_empty, fun _ _ _ => .none, fun _ h => absurd rfl h, fun _ h => absurd rfl h⟩

theorem Matches.taken_iff (h : Matches asked m s) (named : FileStore.Names key p) :
    m.Taken key ↔ s.tree.content? p ≠ none := by
  have entry := h.entries key p named
  unfold MemoryStore.Taken
  revert entry
  generalize Fields.get? key m.entries = x
  generalize s.tree.content? p = y
  rintro (⟨-⟩ | -)
  · exact iff_of_true nofun nofun
  · exact Iff.rfl

theorem Matches.of_content?_eq (h : Matches asked m s) (shaped : s'.tree.Shaped)
    (same : ∀ q, s'.tree.content? q = s.tree.content? q) : Matches asked m s' := by
  refine ⟨shaped, fun key p named => ?_, h.keys, fun p hp => ?_⟩
  · rw [same]
    exact h.entries key p named
  · rw [same] at hp
    exact h.files p hp

theorem Matches.insert (h : Matches asked m s) (named : FileStore.Names key p)
    (stored : Stored asked key bytes bytes') (shaped : s'.tree.Shaped)
    (added : ∀ q, s'.tree.content? q = if q = p then some bytes' else s.tree.content? q) :
    Matches asked ⟨Fields.insert key bytes m.entries⟩ s' := by
  refine ⟨shaped, fun key' q named' => ?_, fun key' taken => ?_, fun q hq => ?_⟩
  · rw [added, Fields.get?_insert]
    by_cases hkey : key = key'
    · subst hkey
      rw [if_pos rfl, if_pos (named'.path_eq named)]
      exact .some stored
    · rw [if_neg hkey, if_neg fun hqp : q = p => hkey (named.key_eq (hqp ▸ named'))]
      exact h.entries key' q named'
  · rw [MemoryStore.Taken, Fields.get?_insert] at taken
    by_cases hkey : key = key'
    · exact hkey ▸ ⟨p, named⟩
    · rw [if_neg hkey] at taken
      exact h.keys key' taken
  · rw [added] at hq
    by_cases hqp : q = p
    · exact hqp ▸ ⟨key, named⟩
    · rw [if_neg hqp] at hq
      exact h.files q hq

theorem Matches.erase (h : Matches asked m s) (named : FileStore.Names key p)
    (shaped : s'.tree.Shaped)
    (removed : ∀ q, s'.tree.content? q = if q = p then none else s.tree.content? q) :
    Matches asked ⟨Fields.erase key m.entries⟩ s' := by
  refine ⟨shaped, fun key' q named' => ?_, fun key' taken => ?_, fun q hq => ?_⟩
  · rw [removed, Fields.get?_erase]
    by_cases hkey : key' = key
    · subst hkey
      rw [if_pos rfl, if_pos (named'.path_eq named)]
      exact .none
    · rw [if_neg hkey, if_neg fun hqp : q = p => hkey (named'.key_eq (hqp ▸ named))]
      exact h.entries key' q named'
  · exact h.keys key' ((MemoryStore.taken_erase m key key').mp taken).1
  · rw [removed] at hq
    by_cases hqp : q = p
    · exact absurd (if_pos hqp) hq
    · rw [if_neg hqp] at hq
      exact h.files q hq

theorem Matches.create (h : Matches asked m s) (named : FileStore.Names key p) (usable : p.Usable)
    (stored : Stored asked key bytes bytes') :
    (m.create key bytes).1 = (s.create key bytes').1 ∧
      Matches asked (m.create key bytes).2 (s.create key bytes').2 := by
  obtain ⟨s', shaped, ⟨taken, created, same⟩ | ⟨free, created, added⟩⟩ :=
    s.create_named h.shaped named usable bytes'
  · rw [MemoryStore.create_of_taken ((h.taken_iff named).mpr taken), created]
    exact ⟨rfl, h.of_content?_eq shaped same⟩
  · rw [MemoryStore.create_of_not_taken fun taken => (h.taken_iff named).mp taken free, created]
    exact ⟨rfl, h.insert named stored shaped added⟩

end ArtifactStore

namespace StoreRequest

/-- The content key that a request is about. -/
def contentKey : StoreRequest → String
  | .writeArtifact key _ status => key.contentKey status
  | .readArtifact key => key
  | .writeMetadata a => a.storageKey
  | .readMetadata key => key
  | .contains key => key
  | .removeArtifact key => key

/-- The content key can be read and stays below the root, the file system can use the names of the
two places that it stands for, and the numbers of an artifact fit their words. -/
structure Accepted (r : StoreRequest) : Prop where
  readable : ∃ k, ArtifactKey.read r.contentKey = .ok k
  content : ∃ p, FileStore.path r.contentKey = .ok p ∧ p.Usable
  metadata : ∀ k q, ArtifactKey.read r.contentKey = .ok k →
    FileStore.path k.1.metadataKey = .ok q → q.Usable
  sized : ∀ a, r = .writeMetadata a → a.Sized

theorem Accepted.places {r : StoreRequest} (h : r.Accepted) :
    ∃ k p q, ArtifactKey.ofContentKey? r.contentKey = some k ∧ FileStore.Names r.contentKey p ∧
      p.Usable ∧ FileStore.Names k.1.metadataKey q ∧ q.Usable := by
  obtain ⟨k, hread⟩ := h.readable
  obtain ⟨p, hpath, usable⟩ := h.content
  obtain ⟨named, q, side⟩ := FileStore.names_of_readable (ArtifactKey.read_eq_ok.mp hread) hpath
  exact ⟨k, p, q, ArtifactKey.read_eq_ok.mp hread, named, usable, side,
    h.metadata k q hread side.path⟩

end StoreRequest

namespace ArtifactStore

section Answers

variable {asked : StoreRequest → Prop} {m : MemoryStore} {s : FileStore} {key : String} {p q : Path}
variable {k : ArtifactKey × ContentStatus}

theorem Matches.readArtifact (h : Matches asked m s) (named : FileStore.Names key p)
    (usable : p.Usable) (hread : ArtifactKey.ofContentKey? key = some k) :
    m.read key = s.readArtifact key := by
  have entry := h.entries key p named
  rw [MemoryStore.read, FileStore.readArtifact, ArtifactKey.read_eq_ok.mpr hread]
  dsimp only [Bind.bind, Except.bind]
  rw [FileStore.read_named h.shaped named usable]
  generalize Fields.get? key m.entries = x at entry
  generalize s.tree.content? p = y at entry
  cases entry with
  | none => rfl
  | some stored => rw [stored.eq_of_readable hread]

theorem Matches.readMetadata (h : Matches asked m s) (side : FileStore.Names k.1.metadataKey q)
    (usable : q.Usable) (hread : ArtifactKey.ofContentKey? key = some k) :
    m.readMetadata key = s.readMetadata key := by
  have entry := h.entries _ q side
  rw [MemoryStore.readMetadata, FileStore.readMetadata, ArtifactKey.read_eq_ok.mpr hread]
  dsimp only [Bind.bind, Except.bind]
  rw [FileStore.read_named h.shaped side usable]
  generalize Fields.get? k.1.metadataKey m.entries = x at entry
  generalize s.tree.content? q = y at entry
  cases entry with
  | none => rfl
  | some stored => exact stored.ofBytes_eq.symm

theorem Matches.contains (h : Matches asked m s) (named : FileStore.Names key p)
    (usable : p.Usable) : .ok (Fields.contains key m.entries) = s.contains key := by
  have entry := h.entries key p named
  rw [FileStore.contains_named h.shaped named usable, Fields.contains]
  generalize Fields.get? key m.entries = x at entry
  generalize s.tree.content? p = y at entry
  cases entry <;> rfl

end Answers

variable {asked : StoreRequest → Prop} {m : MemoryStore} {s : FileStore} {r : StoreRequest}

/-- Asked the same, stores that match give the same answer and match afterwards. -/
theorem Matches.answer (h : Matches asked m s) (hr : asked r) (accepted : r.Accepted) :
    (m.answer r).1 = (s.answer r).1 ∧ Matches asked (m.answer r).2 (s.answer r).2 := by
  obtain ⟨k, p, q, hread, named, usable, side, usable'⟩ := accepted.places
  cases r with
  | writeArtifact key content status =>
    have readable : ArtifactKey.ofContentKey? (key.contentKey status) ≠ none :=
      Option.ne_none_iff_exists'.mpr ⟨k, hread⟩
    obtain ⟨reply, after⟩ := h.create named usable (.content hr rfl readable)
    exact ⟨congrArg (Except.map fun _ => key.contentKey status) reply, after⟩
  | readArtifact key => exact ⟨h.readArtifact named usable hread, h⟩
  | writeMetadata a =>
    have beside : ArtifactKey.side? a.storageKey = some k.1.metadataKey :=
      congrArg (Option.map _) hread
    have read : ArtifactKey.read a.storageKey = .ok k := ArtifactKey.read_eq_ok.mpr hread
    simp only [MemoryStore.answer, FileStore.answer, read]
    exact h.create side usable' (.metadata hr beside (accepted.sized a rfl))
  | readMetadata key => exact ⟨h.readMetadata side usable' hread, h⟩
  | contains key => exact ⟨h.contains named usable, h⟩
  | removeArtifact key =>
    obtain ⟨reply, shaped⟩ := FileStore.remove_named h.shaped named usable hread
    exact ⟨reply.symm, h.erase named shaped (s.content?_remove hread named.path)⟩

/-- The answers to requests one after the other, and the store afterwards. -/
def answerAll : List StoreRequest → ArtifactStore → List (Sigma StoreRequest.Reply) × ArtifactStore
  | [], st => ([], st)
  | r :: rs, st =>
    let (x, st) := st.answer r
    let (xs, st) := answerAll rs st
    (⟨r, x⟩ :: xs, st)

theorem Matches.answerAll (h : Matches asked m s) {rs : List StoreRequest}
    (accepted : ∀ r ∈ rs, asked r ∧ r.Accepted) :
    ∃ m' s', Matches asked m' s' ∧ ∃ xs, answerAll rs (.memory m) = (xs, .memory m') ∧
      answerAll rs (.files s) = (xs, .files s') := by
  induction rs generalizing m s with
  | nil => exact ⟨m, s, h, [], rfl, rfl⟩
  | cons r rs ih =>
    obtain ⟨hr, hrs⟩ := List.forall_mem_cons.mp accepted
    obtain ⟨reply, after⟩ := h.answer hr.1 hr.2
    obtain ⟨m', s', match', xs, hm, hs⟩ := ih after hrs
    refine ⟨m', s', match', ⟨r, (m.answer r).1⟩ :: xs, ?_, ?_⟩
    · rw [ArtifactStore.answerAll, ArtifactStore.answer, Prod.map]
      dsimp only [id]
      rw [hm]
    · rw [ArtifactStore.answerAll, ArtifactStore.answer, Prod.map]
      dsimp only [id]
      rw [hs, reply]

theorem mem_keys_memory {key : String} : key ∈ (ArtifactStore.memory m).keys ↔ m.Taken key :=
  Fields.mem_keys_iff

theorem mem_keys_files {key : String} :
    key ∈ (ArtifactStore.files s).keys ↔ ∃ p, s.tree.content? p ≠ none ∧ p.text = key := by
  have there (p : Path) : s.tree.content? p ≠ none ↔ ∃ f ∈ s.tree.files, f.1 = p := by
    rw [← Option.isSome_iff_ne_none, FileTree.content?, List.lookup_isSome_iff]
    simp only [beq_iff_eq, @eq_comm _ p]
  simp only [ArtifactStore.keys, List.mem_mergeSort, List.mem_map, there]
  constructor
  · rintro ⟨f, hf, rfl⟩
    exact ⟨f.1, ⟨f, hf, rfl⟩, rfl⟩
  · rintro ⟨_, ⟨f, hf, rfl⟩, rfl⟩
    exact ⟨f, hf, rfl⟩

/-- The stores have the same keys; under each there is the same content, or metadata that reads back
as the same artifact, as one of the requests wrote it. -/
structure Equivalent (asked : StoreRequest → Prop) (s s' : ArtifactStore) : Prop where
  keys : ∀ key, key ∈ s.keys ↔ key ∈ s'.keys
  entries : ∀ key ∈ s.keys, ∃ p p' bytes bytes', s.place key = .ok p ∧ s'.place key = .ok p' ∧
    s.content? p = some bytes ∧ s'.content? p' = some bytes' ∧ Stored asked key bytes bytes' ∧
    Artifact.ofBytes bytes' = Artifact.ofBytes bytes

theorem Matches.equivalent (h : Matches asked m s) : Equivalent asked (.memory m) (.files s) := by
  refine ⟨fun key => ?_, fun key hkey => ?_⟩
  · rw [mem_keys_memory, mem_keys_files]
    constructor
    · intro taken
      obtain ⟨p, named⟩ := h.keys key taken
      exact ⟨p, (h.taken_iff named).mp taken, named.text⟩
    · rintro ⟨p, hp, rfl⟩
      obtain ⟨key, named⟩ := h.files p hp
      rw [named.text]
      exact (h.taken_iff named).mpr hp
  · have taken := mem_keys_memory.mp hkey
    obtain ⟨p, named⟩ := h.keys key taken
    have entry := h.entries key p named
    obtain ⟨bytes, hbytes⟩ := Option.ne_none_iff_exists'.mp taken
    obtain ⟨bytes', hbytes'⟩ := Option.ne_none_iff_exists'.mp ((h.taken_iff named).mp taken)
    rw [hbytes, hbytes'] at entry
    cases entry with
    | some stored =>
      exact ⟨[key], p, bytes, bytes', rfl, named.path, hbytes, hbytes', stored, stored.ofBytes_eq⟩

/-- Nothing but a removal changes an entry that is there. -/
theorem content?_answer_of_some {st : ArtifactStore} (hr : ∀ key, r ≠ .removeArtifact key)
    {p : Place} {bytes : ByteArray} (there : st.content? p = some bytes) :
    (st.answer r).2.content? p = some bytes := by
  have added {q : Place} {bytes' : ByteArray} {st' : ArtifactStore} (h : Added st q bytes' st') :
      st'.content? p = some bytes := by
    have hne : p ≠ q := by
      rintro rfl
      cases there.symm.trans h.2.1
    rw [h.2.2, if_neg hne, there]
  cases r with
  | writeArtifact key content status =>
    rcases st.writeArtifact_cases key content status with
      ⟨e, st', answered, -, same⟩ | ⟨q, st', answered, -, h⟩
    · rw [answered, same, there]
    · rw [answered]
      exact added h
  | writeMetadata a =>
    rcases st.writeMetadata_cases a with
      ⟨e, st', answered, -, same⟩ | ⟨k, q, bytes', st', answered, -, -, h, -⟩
    · rw [answered, same, there]
    · rw [answered]
      exact added h
  | removeArtifact key => exact absurd rfl (hr key)
  | readArtifact key => cases st <;> exact there
  | readMetadata key => cases st <;> exact there
  | contains key => cases st <;> exact there

/-- From the empty stores on, the store in memory and the store of files give the same answers and
hold the same, and no entry is ever written over. -/
theorem memory_and_files_equivalent {rs : List StoreRequest} (accepted : ∀ r ∈ rs, r.Accepted) :
    (answerAll rs (.memory .empty)).1 = (answerAll rs (.files ⟨.empty⟩)).1 ∧
      Equivalent (· ∈ rs) (answerAll rs (.memory .empty)).2 (answerAll rs (.files ⟨.empty⟩)).2 ∧
      ∀ (st : ArtifactStore) (r : StoreRequest), (∀ key, r ≠ .removeArtifact key) →
        ∀ p bytes, st.content? p = some bytes → (st.answer r).2.content? p = some bytes := by
  have asked (r : StoreRequest) (hr : r ∈ rs) : r ∈ rs ∧ r.Accepted := ⟨hr, accepted r hr⟩
  obtain ⟨m, s, h, xs, hm, hs⟩ := matches_empty.answerAll asked
  rw [hm, hs]
  exact ⟨rfl, h.equivalent, fun st r hr p bytes there => content?_answer_of_some hr there⟩

def note : Artifact where
  id := "run-note-v1"
  storageKey := "seo/generated/draft/run-note-v1.md"
  capability := "seo"
  name := "note"
  version := 1
  extension := "md"
  contentStatus := .draft
  derivedFrom := none
  executionId := "run"
  stepId := none
  createdAt := ⟨0, 0⟩
  sha256 := ""
  sizeBytes := 0

def noteRequests : List StoreRequest :=
  [.writeArtifact note.key "A".toUTF8 .draft, .writeMetadata note,
    .writeArtifact note.key "B".toUTF8 .draft, .readArtifact note.storageKey,
    .readMetadata note.storageKey, .contains note.storageKey, .removeArtifact note.storageKey]

theorem note_equivalent : (∀ r ∈ noteRequests, r.Accepted) ∧
    (answerAll noteRequests (.memory .empty)).1 = (answerAll noteRequests (.files ⟨.empty⟩)).1 ∧
    Equivalent (· ∈ noteRequests) (answerAll noteRequests (.memory .empty)).2
      (answerAll noteRequests (.files ⟨.empty⟩)).2 := by
  have read : ArtifactKey.read note.storageKey = .ok (note.key, .draft) := by rfl
  have path : FileStore.path note.storageKey =
      .ok ["seo", "generated", "draft", "run-note-v1.md"] := by
    rfl
  have side : FileStore.path note.key.metadataKey =
      .ok ["seo", "metadata", "run-note-v1.json"] := by
    rfl
  have accepted (r : StoreRequest) (hr : r.contentKey = note.storageKey)
      (sized : ∀ a, r = .writeMetadata a → a.Sized) : r.Accepted := by
    refine ⟨⟨_, hr ▸ read⟩, ⟨_, hr ▸ path, by decide⟩, fun k q hk hq => ?_, sized⟩
    rw [hr, read] at hk
    cases hk
    rw [side] at hq
    cases hq
    decide
  have all (r : StoreRequest) (hr : r ∈ noteRequests) : r.Accepted := by
    simp only [noteRequests, List.mem_cons, List.not_mem_nil, or_false] at hr
    rcases hr with rfl | rfl | rfl | rfl | rfl | rfl | rfl
    case inr.inl =>
      refine accepted _ rfl fun a ha => ?_
      cases ha
      exact ⟨by decide, by decide⟩
    all_goals exact accepted _ rfl nofun
  obtain ⟨answers, equivalent, -⟩ := memory_and_files_equivalent all
  exact ⟨all, answers, equivalent⟩

end ArtifactStore

end PlaybookEngine
