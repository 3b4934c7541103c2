import PlaybookEngine.Proofs.Artifact.Lane
import PlaybookEngine.Proofs.Artifact.Persistence

namespace PlaybookEngine

namespace MemoryStore

/-- The same keys of the lane are taken. -/
def Agree (l : Lane) (m m' : MemoryStore) : Prop := ∀ k, l.Has k → (m.Taken k ↔ m'.Taken k)

variable {l : Lane} {m m' : MemoryStore} {k : String}

theorem taken_create (m : MemoryStore) (k : String) (bytes : ByteArray) (j : String) :
    (m.create k bytes).2.Taken j ↔ m.Taken j ∨ k = j := by
  by_cases hk : m.Taken k
  · rw [create_of_taken hk]
    constructor
    · exact .inl
    · intro hh
      rcases hh with taken | rfl
      · exact taken
      · exact hk
  · rw [create_of_not_taken hk, Taken, Taken, Fields.get?_insert]
    by_cases hj : k = j
    · simp [hj]
    · simp [hj]

theorem taken_erase (m : MemoryStore) (k j : String) :
    Taken ⟨Fields.erase k m.entries⟩ j ↔ m.Taken j ∧ k ≠ j := by
  rw [Taken, Taken, Fields.get?_erase]
  by_cases hj : j = k
  · simp [hj]
  · simp [hj, Ne.symm hj]

theorem Agree.create (h : Agree l m m') (hk : l.Has k) (bytes : ByteArray) :
    (m'.create k bytes).1 = (m.create k bytes).1 ∧
      Agree l (m.create k bytes).2 (m'.create k bytes).2 := by
  refine ⟨?_, fun j hj => ?_⟩
  · by_cases taken : m.Taken k
    · rw [create_of_taken taken, create_of_taken ((h k hk).mp taken)]
    · rw [create_of_not_taken taken, create_of_not_taken fun t => taken ((h k hk).mpr t)]
  · rw [taken_create, taken_create, h j hj]

theorem Agree.create_outside (h : Agree l m m') (hk : ¬ l.Has k) (bytes : ByteArray) :
    Agree l (m.create k bytes).2 m' := by
  intro j hj
  rw [taken_create, h j hj]
  constructor
  · intro hh
    rcases hh with taken | rfl
    · exact taken
    · exact absurd hj hk
  · exact .inl

theorem Agree.erase (h : Agree l m m') (k : String) :
    Agree l ⟨Fields.erase k m.entries⟩ ⟨Fields.erase k m'.entries⟩ := by
  intro j hj
  rw [taken_erase, taken_erase, h j hj]

theorem Agree.erase_outside (h : Agree l m m') (hk : ¬ l.Has k) :
    Agree l ⟨Fields.erase k m.entries⟩ m' := by
  intro j hj
  rw [taken_erase, h j hj]
  constructor
  · exact And.left
  · intro taken
    refine ⟨taken, ?_⟩
    intro hh
    subst hh
    exact hk hj

end MemoryStore

namespace Path

theorem prefix_of_mem_ancestors {p a : Path} (h : a ∈ ancestors p) : a <+: p := by
  induction p generalizing a with
  | nil => cases h
  | cons name rest ih =>
    cases rest with
    | nil => cases h
    | cons next rest =>
      rw [ancestors] at h
      · rcases List.mem_cons.mp h with rfl | h
        · exact ⟨next :: rest, rfl⟩
        · obtain ⟨b, hb, rfl⟩ := List.mem_map.mp h
          exact List.cons_prefix_cons.mpr ⟨rfl, ih hb⟩
      · exact nofun

/-- Whatever is not right below the root lies in one of the directories on the way. -/
theorem dropLast_mem_ancestors {p : Path} (h : p.dropLast ≠ []) : p.dropLast ∈ ancestors p := by
  induction p with
  | nil => exact absurd rfl h
  | cons name rest ih =>
    cases rest with
    | nil => exact absurd rfl h
    | cons next rest =>
      rw [ancestors, List.dropLast_cons_of_ne_nil (List.cons_ne_nil _ _)]
      · by_cases hrest : (next :: rest).dropLast = []
        · rw [hrest]
          exact List.mem_cons_self
        · exact List.mem_cons_of_mem _ (List.mem_map_of_mem (ih hrest))
      · exact nofun

theorem dropLast_of_mem_ancestors {p a : Path} (h : a ∈ ancestors p) (ha : a.dropLast ≠ []) :
    a.dropLast ∈ ancestors p := by
  induction p generalizing a with
  | nil => cases h
  | cons name rest ih =>
    cases rest with
    | nil => cases h
    | cons next rest =>
      rw [ancestors] at h ⊢
      · rcases List.mem_cons.mp h with rfl | h
        · exact absurd rfl ha
        · obtain ⟨b, hb, rfl⟩ := List.mem_map.mp h
          cases b with
          | nil => exact absurd rfl ha
          | cons c b =>
            rw [List.dropLast_cons_of_ne_nil (List.cons_ne_nil _ _)]
            by_cases hb' : (c :: b).dropLast = []
            · rw [hb']
              exact List.mem_cons_self
            · exact List.mem_cons_of_mem _ (List.mem_map_of_mem (ih hb hb'))
      · exact nofun
      · exact nofun

end Path

theorem any_congr_mem {α : Type} {f g : α → Bool} {as : List α} (h : ∀ a ∈ as, f a = g a) :
    as.any f = as.any g := by
  induction as with
  | nil => rfl
  | cons a as ih =>
    rw [List.any_cons, List.any_cons, h a List.mem_cons_self,
      ih fun b hb => h b (List.mem_cons_of_mem a hb)]

namespace FileTree

theorem isFile_put (t : FileTree) (p q : Path) (bytes : ByteArray) :
    (t.put p bytes).isFile q = (q == p || t.isFile q) := by
  rw [isFile, content?_put, isFile]
  by_cases h : q = p
  · simp [h]
  · simp [h]

theorem isDirectory_put (t : FileTree) (p q : Path) (bytes : ByteArray) :
    (t.put p bytes).isDirectory q = (t.isDirectory q || (Path.ancestors p).contains q) := by
  simp only [isDirectory, put, List.contains_eq_mem, List.mem_append, List.mem_filter]
  by_cases h : q ∈ t.directories <;> simp [h]

theorem content?_remove (t : FileTree) (p q : Path) :
    (t.remove p).content? q = if q = p then none else t.content? q := by
  unfold content? remove
  dsimp only
  induction t.files with
  | nil => simp
  | cons x rest ih =>
    obtain ⟨r, bytes⟩ := x
    by_cases hr : r = p
    · subst hr
      by_cases hq : q = r
      · subst hq
        simpa using ih
      · have hqr : (q == r) = false := by simpa using hq
        simpa [List.lookup_cons, hqr, hq] using ih
    · by_cases hq : q = r
      · subst hq
        simp [hr]
      · have hqr : (q == r) = false := by simpa using hq
        simpa [List.lookup_cons, hqr, hr] using ih

theorem isFile_remove (t : FileTree) (p q : Path) :
    (t.remove p).isFile q = (q != p && t.isFile q) := by
  rw [isFile, content?_remove, isFile]
  by_cases h : q = p
  · simp [h]
  · simp [h]

/-- Directories were added. -/
theorem addDirectories_eq_some {t t₁ : FileTree} {ps : List Path}
    (h : t.addDirectories ps = some t₁) :
    t₁.files = t.files ∧ ∀ q, t₁.isDirectory q = (t.isDirectory q || ps.contains q) := by
  unfold addDirectories at h
  split at h
  · cases h
  · cases h
    refine ⟨rfl, ?_⟩
    intro q
    simp only [isDirectory, List.contains_eq_mem, List.mem_append, List.mem_filter]
    by_cases hq : q ∈ t.directories <;> simp [hq]

/-- The files on the way into the lane and within, and the directories within, are the same. -/
structure Agree (front : List (List Char)) (execution : String) (t t' : FileTree) : Prop where
  files : ∀ p : Path, Lane.Names front execution (p.map String.toList) ∨
    Lane.Leads front (p.map String.toList) → t.isFile p = t'.isFile p
  directories : ∀ p : Path, Lane.Names front execution (p.map String.toList) →
    t.isDirectory p = t'.isDirectory p

variable {front : List (List Char)} {x y : String} {t t' t₁ t₁' : FileTree} {p : Path}

theorem onWay {a : Path} (hp : Lane.Names front x (p.map String.toList))
    (ha : a ∈ Path.ancestors p) : Lane.Names front x (a.map String.toList) ∨
      Lane.Leads front (a.map String.toList) :=
  (hp.of_prefix ((Path.prefix_of_mem_ancestors ha).map _)).symm

theorem Agree.isFile_ancestors (h : Agree front x t t')
    (hp : Lane.Names front x (p.map String.toList)) :
    ∀ a ∈ Path.ancestors p, t.isFile a = t'.isFile a := fun a ha => h.files a (onWay hp ha)

/-- The way into the lane can be made in both trees or in neither. -/
theorem Agree.addDirectories (h : Agree front x t t')
    (hp : Lane.Names front x (p.map String.toList)) :
    (t.addDirectories (Path.ancestors p)).isSome = (t'.addDirectories (Path.ancestors p)).isSome := by
  have same : ((Path.ancestors p).any fun a => t.isFile a || !a.all nameFits || a.any hasNul) =
      (Path.ancestors p).any fun a => t'.isFile a || !a.all nameFits || a.any hasNul :=
    any_congr_mem fun a ha => by rw [h.isFile_ancestors hp a ha]
  unfold FileTree.addDirectories
  rw [same]
  split
  · rfl
  · rfl

theorem Agree.added (h : Agree front x t t')
    (h₁ : t.addDirectories (Path.ancestors p) = some t₁)
    (h₁' : t'.addDirectories (Path.ancestors p) = some t₁') : Agree front x t₁ t₁' := by
  obtain ⟨files, directories⟩ := addDirectories_eq_some h₁
  obtain ⟨files', directories'⟩ := addDirectories_eq_some h₁'
  refine ⟨fun q hq => ?_, fun q hq => ?_⟩
  · have same := h.files q hq
    unfold isFile content? at same ⊢
    rw [files, files', same]
  · rw [directories, directories', h.directories q hq]

/-- What a path leads to, without the content of a file. -/
def Found.bare : Found → Found
  | .file _ => .file .empty
  | found => found

/-- With the way there, a path of the lane leads to the same in both trees. -/
theorem Agree.find (h : Agree front x t t') (hp : Lane.Names front x (p.map String.toList))
    (way : ∀ a ∈ Path.ancestors p, t.isDirectory a = true ∧ t'.isDirectory a = true) :
    (t.find p).bare = (t'.find p).bare := by
  have above (q : Path) (hq : q ∈ p :: Path.ancestors p) :
      t.isDirectory q.dropLast = t'.isDirectory q.dropLast := by
    by_cases hroot : q.dropLast = []
    · rw [hroot]
      rfl
    · have between : q.dropLast ∈ Path.ancestors p := by
        rcases List.mem_cons.mp hq with rfl | hq
        · exact Path.dropLast_mem_ancestors hroot
        · exact Path.dropLast_of_mem_ancestors hq hroot
      rw [(way _ between).1, (way _ between).2]
  have long : t.stopsAtLongName p = t'.stopsAtLongName p :=
    any_congr_mem fun q hq => by rw [above q hq]
  have files := any_congr_mem (h.isFile_ancestors hp)
  have same := h.files p (.inl hp)
  rw [isFile, isFile] at same
  unfold FileTree.find
  rw [h.directories p hp, files, long]
  cases hc : t.content? p with
  | some bytes =>
    cases hc' : t'.content? p with
    | some bytes' => rfl
    | none =>
      rw [hc, hc'] at same
      cases same
  | none =>
    cases hc' : t'.content? p with
    | some bytes' =>
      rw [hc, hc'] at same
      cases same
    | none => rfl

theorem Agree.put (h : Agree front x t t') (p : Path) (bytes : ByteArray) :
    Agree front x (t.put p bytes) (t'.put p bytes) := by
  refine ⟨fun q hq => ?_, fun q hq => ?_⟩
  · rw [isFile_put, isFile_put, h.files q hq]
  · rw [isDirectory_put, isDirectory_put, h.directories q hq]

theorem Agree.remove (h : Agree front x t t') (p : Path) :
    Agree front x (t.remove p) (t'.remove p) := by
  refine ⟨fun q hq => ?_, fun q hq => h.directories q hq⟩
  rw [isFile_remove, isFile_remove, h.files q hq]

section Outside

/-- A path of another lane is neither in this one nor on the way into it. -/
theorem outside (hp : Lane.Names front y (p.map String.toList)) (hlength : y.length = x.length)
    (hne : y ≠ x) {q : Path} (hq : Lane.Names front x (q.map String.toList) ∨
      Lane.Leads front (q.map String.toList)) : q ≠ p := by
  intro hh
  subst hh
  rcases hq with hq | hq
  · exact hne (hp.unique hq hlength)
  · exact hq.not_names hp

variable (hp : Lane.Names front y (p.map String.toList)) (hlength : y.length = x.length)
  (hne : y ≠ x)
include hp hlength hne

theorem not_mem_ancestors {q : Path} (hq : Lane.Names front x (q.map String.toList)) :
    q ∉ Path.ancestors p := by
  intro hmem
  rcases onWay hp hmem with names | leads
  · exact hne (names.unique hq hlength)
  · exact leads.not_names hq

theorem Agree.added_outside (h : Agree front x t t')
    (h₁ : t.addDirectories (Path.ancestors p) = some t₁) : Agree front x t₁ t' := by
  obtain ⟨files, directories⟩ := addDirectories_eq_some h₁
  refine ⟨fun q hq => ?_, fun q hq => ?_⟩
  · have same := h.files q hq
    unfold isFile content? at same ⊢
    rw [files, same]
  · rw [directories, h.directories q hq]
    simp [not_mem_ancestors hp hlength hne hq]

theorem Agree.put_outside (h : Agree front x t t') (bytes : ByteArray) :
    Agree front x (t.put p bytes) t' := by
  refine ⟨fun q hq => ?_, fun q hq => ?_⟩
  · rw [isFile_put, h.files q hq]
    simp [outside hp hlength hne hq]
  · rw [isDirectory_put, h.directories q hq]
    simp [not_mem_ancestors hp hlength hne hq]

theorem Agree.remove_outside (h : Agree front x t t') : Agree front x (t.remove p) t' := by
  refine ⟨fun q hq => ?_, fun q hq => h.directories q hq⟩
  rw [isFile_remove, h.files q hq]
  simp [outside hp hlength hne hq]

end Outside

end FileTree

namespace Lane

/-- The components of the paths under the capability of the lane. -/
def front (l : Lane) : List (List Char) := StoragePath.components l.capability.toList

/-- The file that a key of the lane names. -/
theorem Has.path {l : Lane} {key : String} {p : Path} (h : l.Has key)
    (hp : FileStore.path key = .ok p) : Names l.front l.execution (p.map String.toList) := by
  obtain ⟨b, hb, rest, beyond, hparts⟩ := h
  unfold FileStore.path StoragePath.ofKey at hp
  split at hp
  · cases hp
    refine ⟨b, hb, rest, beyond.filter fun part => part ≠ [] ∧ part ≠ ['.'], ?_⟩
    have kept : b.filter (fun part => part ≠ [] ∧ part ≠ ['.']) = b := by
      simp only [branches, Named.all, List.map_cons, List.map_nil, List.mem_cons,
        List.not_mem_nil, or_false] at hb
      rcases hb with rfl | rfl | rfl | rfl | rfl <;> decide
    have name : l.execution.toList ++ '-' :: rest ≠ [] ∧ l.execution.toList ++ '-' :: rest ≠ ['.'] := by
      cases l.execution.toList with
      | nil => simp
      | cons c cs => simp
    have back : String.toList ∘ String.ofList = id := funext fun cs => String.toList_ofList
    rw [List.map_map, back, List.map_id, StoragePath.components, hparts, List.filter_append,
      List.filter_append, kept, List.filter_cons_of_pos (by simpa using name)]
    rfl
  · cases hp

end Lane

namespace FileStore

variable {l other : Lane} {s s' : FileStore} {key : String}

def Agree (l : Lane) (s s' : FileStore) : Prop :=
  FileTree.Agree l.front l.execution s.tree s'.tree

theorem Agree.create (h : Agree l s s') (hk : l.Has key) (bytes : ByteArray) :
    (s'.create key bytes).1 = (s.create key bytes).1 ∧
      Agree l (s.create key bytes).2 (s'.create key bytes).2 := by
  unfold FileStore.create
  cases hpath : path key with
  | error err => exact ⟨rfl, h⟩
  | ok p =>
    have hp := hk.path hpath
    have made := FileTree.Agree.addDirectories h hp
    dsimp only
    cases hadd : s.tree.addDirectories (Path.ancestors p) with
    | none =>
      cases hadd' : s'.tree.addDirectories (Path.ancestors p) with
      | none => exact ⟨rfl, h⟩
      | some t' =>
        rw [hadd, hadd'] at made
        cases made
    | some t =>
      cases hadd' : s'.tree.addDirectories (Path.ancestors p) with
      | none =>
        rw [hadd, hadd'] at made
        cases made
      | some t' =>
        have added := FileTree.Agree.added h hadd hadd'
        have way (a : Path) (ha : a ∈ Path.ancestors p) :
            t.isDirectory a = true ∧ t'.isDirectory a = true := by
          rw [(FileTree.addDirectories_eq_some hadd).2, (FileTree.addDirectories_eq_some hadd').2]
          simp [ha]
        have found := added.find hp way
        dsimp only
        split
        · rw [refusal, refusal, added.directories p hp]
          exact ⟨rfl, added⟩
        · cases hfind : t.find p <;> cases hfind' : t'.find p <;> rw [hfind, hfind'] at found
          all_goals first
            | exact ⟨rfl, added⟩
            | exact ⟨rfl, added.put p bytes⟩
            | cases found

theorem isFile_iff (t : FileTree) (p : Path) : t.isFile p = true ↔ ∃ bytes, t.find p = .file bytes := by
  unfold FileTree.isFile FileTree.find
  cases t.content? p with
  | some bytes => exact iff_of_true rfl ⟨bytes, rfl⟩
  | none =>
    apply iff_of_false nofun
    intro hh
    obtain ⟨bytes, h⟩ := hh
    dsimp only at h
    split at h
    · cases h
    · split at h <;> cases h

/-- Nothing but a file is removed. -/
theorem remove_eq (s : FileStore) (key : String) :
    (s.remove key).2 = s ∨ ∃ p, path key = .ok p ∧ (s.remove key).2 = ⟨s.tree.remove p⟩ := by
  unfold FileStore.remove
  cases ArtifactKey.read key with
  | error err => exact .inl rfl
  | ok k =>
    cases path key with
    | error err => exact .inl rfl
    | ok p =>
      dsimp only
      cases s.tree.find p with
      | file bytes => exact .inr ⟨p, rfl, rfl⟩
      | missing => exact .inl rfl
      | directory => exact .inl rfl
      | blocked => exact .inl rfl

theorem Agree.remove (h : Agree l s s') (hk : l.Has key) :
    Agree l (s.remove key).2 (s'.remove key).2 := by
  unfold FileStore.remove
  cases ArtifactKey.read key with
  | error err => exact h
  | ok k =>
    cases hpath : path key with
    | error err => exact h
    | ok p =>
      have same := FileTree.Agree.files h p (.inl (hk.path hpath))
      have file := isFile_iff s.tree p
      have file' := isFile_iff s'.tree p
      rw [same] at file
      dsimp only
      cases hfind : s.tree.find p <;> cases hfind' : s'.tree.find p <;>
        rw [hfind] at file <;> rw [hfind'] at file' <;> rw [file] at file'
      all_goals first
        | exact h
        | exact FileTree.Agree.remove h p
        | simp at file'

variable (hcapability : other.capability = l.capability)
  (hlength : other.execution.length = l.execution.length) (hne : other.execution ≠ l.execution)
include hcapability hlength hne

theorem Agree.create_outside (h : Agree l s s') (hk : other.Has key) (bytes : ByteArray) :
    Agree l (s.create key bytes).2 s' := by
  unfold FileStore.create
  cases hpath : path key with
  | error err => exact h
  | ok p =>
    have hp : Lane.Names l.front other.execution (p.map String.toList) := by
      rw [Lane.front, ← hcapability]
      exact hk.path hpath
    dsimp only
    cases hadd : s.tree.addDirectories (Path.ancestors p) with
    | none => exact h
    | some t =>
      have added := FileTree.Agree.added_outside hp hlength hne h hadd
      dsimp only
      split
      · exact added
      · cases t.find p with
        | file old => exact added
        | directory => exact added
        | blocked => exact added
        | missing => exact added.put_outside hp hlength hne bytes

theorem Agree.remove_outside (h : Agree l s s') (hk : other.Has key) :
    Agree l (s.remove key).2 s' := by
  rcases s.remove_eq key with same | ⟨p, hpath, removed⟩
  · rw [same]
    exact h
  · have hp : Lane.Names l.front other.execution (p.map String.toList) := by
      rw [Lane.front, ← hcapability]
      exact hk.path hpath
    rw [removed]
    exact FileTree.Agree.remove_outside hp hlength hne h

end FileStore

namespace Lane

/-- What an execution may ask of a store for the artifacts of its own. -/
def Allows (l : Lane) : StoreRequest → Prop
  | .writeArtifact key _ _ => l.Holds key
  | .writeMetadata a => ∃ key status, l.Holds key ∧ a.storageKey = key.contentKey status
  | .removeArtifact k => ∃ key status, l.Holds key ∧ k = key.contentKey status
  | _ => False

end Lane

namespace ArtifactStore

/-- The replies that a store which agrees with this one may give. Nobody looks at the reply to a
removal. -/
def MayReply (st : ArtifactStore) : (r : StoreRequest) → r.Reply → Prop
  | .removeArtifact _, _ => True
  | r, x => x = (st.answer r).1

/-- Stores of one kind that agree on a lane. -/
def Agree (l : Lane) : ArtifactStore → ArtifactStore → Prop
  | .memory m, .memory m' => m.Agree l m'
  | .files s, .files s' => s.Agree l s'
  | _, _ => False

theorem agree_refl (l : Lane) (st : ArtifactStore) : Agree l st st := by
  cases st with
  | memory m => exact fun k _ => Iff.rfl
  | files s => exact ⟨fun _ _ => rfl, fun _ _ => rfl⟩

variable {l other : Lane} {st st' : ArtifactStore} {r : StoreRequest}

/-- The key of the metadata that a request writes lies in the lane. -/
theorem has_side {key : ArtifactKey} {status : ContentStatus} {a : Artifact}
    {k : ArtifactKey × ContentStatus} (hkey : l.Holds key) (ha : a.storageKey = key.contentKey status)
    (hread : ArtifactKey.read a.storageKey = .ok k) : l.Has k.1.metadataKey :=
  hkey.has_metadataKey (ArtifactKey.read_eq_ok.mp (ha ▸ hread))

/-- What an execution asks for its own artifacts comes to the same on stores that agree. -/
theorem Agree.answer (h : Agree l st st') (hplain : '/' ∉ l.execution.toList) (hr : l.Allows r) :
    st'.MayReply r (st.answer r).1 ∧ Agree l (st.answer r).2 (st'.answer r).2 := by
  cases r with
  | readArtifact key => exact hr.elim
  | readMetadata key => exact hr.elim
  | contains key => exact hr.elim
  | writeArtifact key content status =>
    have hk : l.Has (key.contentKey status) := Lane.Holds.has_contentKey hr hplain
    cases st <;> cases st' <;> try exact h.elim
    case memory.memory m m' =>
      obtain ⟨reply, agree⟩ := MemoryStore.Agree.create h hk content
      exact ⟨congrArg (Except.map fun _ => key.contentKey status) reply.symm, agree⟩
    case files.files s s' =>
      obtain ⟨reply, agree⟩ := FileStore.Agree.create h hk content
      exact ⟨congrArg (Except.map fun _ => key.contentKey status) reply.symm, agree⟩
  | writeMetadata a =>
    obtain ⟨key, status, hkey, ha⟩ := hr
    cases st <;> cases st' <;> try exact h.elim
    case memory.memory m m' =>
      cases hread : ArtifactKey.read a.storageKey with
      | error err =>
        simp only [MayReply, ArtifactStore.answer, MemoryStore.answer, hread]
        exact ⟨rfl, h⟩
      | ok k =>
        obtain ⟨reply, agree⟩ := MemoryStore.Agree.create h (has_side hkey ha hread)
          a.encode.compact.toUTF8
        simp only [MayReply, ArtifactStore.answer, MemoryStore.answer, hread]
        exact ⟨reply.symm, agree⟩
    case files.files s s' =>
      cases hread : ArtifactKey.read a.storageKey with
      | error err =>
        simp only [MayReply, ArtifactStore.answer, FileStore.answer, hread]
        exact ⟨rfl, h⟩
      | ok k =>
        obtain ⟨reply, agree⟩ := FileStore.Agree.create h (has_side hkey ha hread)
          a.encode.pretty.toUTF8
        simp only [MayReply, ArtifactStore.answer, FileStore.answer, hread]
        exact ⟨reply.symm, agree⟩
  | removeArtifact key =>
    obtain ⟨k, status, hk, rfl⟩ := hr
    refine ⟨trivial, ?_⟩
    cases st <;> cases st' <;> try exact h.elim
    case memory.memory m m' => exact MemoryStore.Agree.erase h _
    case files.files s s' => exact FileStore.Agree.remove h (hk.has_contentKey hplain)

/-- What another execution asks for its artifacts does not show. -/
theorem Agree.answer_outside (h : Agree l st st') (hplain : '/' ∉ other.execution.toList)
    (hcapability : other.capability = l.capability)
    (hlength : other.execution.length = l.execution.length) (hne : other.execution ≠ l.execution)
    (hr : other.Allows r) : Agree l (st.answer r).2 st' := by
  have apart {k : String} (hk : other.Has k) : ¬ l.Has k := by
    intro hl
    rw [Lane.Has, hcapability] at hk
    exact hne (hk.unique hl hlength)
  cases r with
  | readArtifact key => exact hr.elim
  | readMetadata key => exact hr.elim
  | contains key => exact hr.elim
  | writeArtifact key content status =>
    have hk : other.Has (key.contentKey status) := Lane.Holds.has_contentKey hr hplain
    cases st <;> cases st' <;> try exact h.elim
    case memory.memory m m' => exact MemoryStore.Agree.create_outside h (apart hk) content
    case files.files s s' =>
      exact FileStore.Agree.create_outside hcapability hlength hne h hk content
  | writeMetadata a =>
    obtain ⟨key, status, hkey, ha⟩ := hr
    cases st <;> cases st' <;> try exact h.elim
    case memory.memory m m' =>
      simp only [ArtifactStore.answer, MemoryStore.answer]
      cases hread : ArtifactKey.read a.storageKey with
      | error err => exact h
      | ok k =>
        exact MemoryStore.Agree.create_outside h (apart (has_side hkey ha hread)) _
    case files.files s s' =>
      simp only [ArtifactStore.answer, FileStore.answer]
      cases hread : ArtifactKey.read a.storageKey with
      | error err => exact h
      | ok k =>
        exact FileStore.Agree.create_outside hcapability hlength hne h (has_side hkey ha hread) _
  | removeArtifact key =>
    obtain ⟨k, status, hk, rfl⟩ := hr
    have hk' : other.Has (k.contentKey status) := hk.has_contentKey hplain
    cases st <;> cases st' <;> try exact h.elim
    case memory.memory m m' => exact MemoryStore.Agree.erase_outside h (apart hk')
    case files.files s s' => exact FileStore.Agree.remove_outside hcapability hlength hne h hk'

end ArtifactStore

end PlaybookEngine
