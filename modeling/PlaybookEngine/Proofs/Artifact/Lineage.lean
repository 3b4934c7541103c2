import PlaybookEngine.Proofs.Artifact.Atomicity
import PlaybookEngine.Proofs.Artifact.Holding
import Mathlib.Data.List.Nodup
import Mathlib.Data.List.Perm.Subperm

namespace PlaybookEngine

namespace ArtifactKey

theorem side?_contentKey (key : ArtifactKey) (status status' : ContentStatus) :
    side? (key.contentKey status) = side? (key.contentKey status') := by
  by_cases h : ofContentKey? (key.contentKey status) = none
  · have h' : ofContentKey? (key.contentKey status') = none := by
      by_contra hread
      exact readable_contentKey hread status h
    rw [side?, side?, h, h']
  · obtain ⟨capability, file, hcapability, hfile⟩ := parts_of_readable h
    rw [side?, side?, ofContentKey?_of_parts hcapability hfile,
      ofContentKey?_of_parts hcapability hfile]
    split
    · rfl
    · split
      · split <;> rfl
      · rfl

end ArtifactKey

namespace MemoryStore

variable {m m' : MemoryStore} {key : String} {a : Artifact}

theorem readMetadata_eq (m : MemoryStore) (key : String) :
    m.readMetadata key =
      match ArtifactKey.side? key with
      | none => .error (.invalidKey key)
      | some side =>
        match Fields.get? side m.entries with
        | some bytes => Artifact.ofBytes bytes
        | none => .error (.notFound key) := by
  rw [readMetadata, ArtifactKey.read, ArtifactKey.side?]
  cases ArtifactKey.ofContentKey? key <;> rfl

theorem readMetadata_eq_ok : m.readMetadata key = .ok a ↔
    ∃ side bytes, ArtifactKey.side? key = some side ∧
      Fields.get? side m.entries = some bytes ∧ Artifact.ofBytes bytes = .ok a := by
  rw [readMetadata_eq]
  cases ArtifactKey.side? key with
  | none => simp
  | some side =>
    rcases hget : Fields.get? side m.entries with _ | bytes
    · simp [hget]
    · simp [hget]

theorem free_of_notFound {missing : String}
    (h : m.readMetadata key = .error (.notFound missing)) :
    ∃ side, ArtifactKey.side? key = some side ∧ ¬ m.Taken side := by
  rw [readMetadata_eq] at h
  split at h
  · cases h
  · rename_i side hside
    split at h
    · rename_i bytes _
      rw [Artifact.ofBytes] at h
      split at h <;> cases h
    · rename_i hnone
      exact ⟨side, hside, not_not.mpr hnone⟩

end MemoryStore

namespace ArtifactStore

variable {now : Timestamp} {st st' : ArtifactStore} {m m' : MemoryStore} {a : Artifact}

theorem run_memory {α : Type} (now : Timestamp) (p : Activity Storage α) (m : MemoryStore) :
    ∃ m', (run now p (.memory m)).2 = .memory m' := by
  induction p generalizing m with
  | done a => exact ⟨m, rfl⟩
  | ask r next ih =>
    cases r with
    | now => exact ih now m
    | store r => exact ih _ _

/-- What a version is stored as. -/
theorem artifact_of_run_store {v : Artifact.Version}
    (h : run now (Artifact.store v) st = (.ok a, st')) :
    a = v.artifact (v.key.contentKey v.status) now := by
  rcases writeArtifact_cases st v.key v.content v.status with
    ⟨e, st₁, hcontent, -⟩ | ⟨p, st₁, hcontent, -, -⟩
  · rw [run_store_of_content_refused hcontent] at h
    cases h
  · rcases writeMetadata_cases st₁ (v.artifact (v.key.contentKey v.status) now) with
      ⟨e, st₂, hside, -⟩ | ⟨k, q, side, st₂, hside, -⟩
    · rw [run_store_of_metadata_refused hcontent hside] at h
      cases h
    · rw [run_store_of_ok hcontent hside] at h
      cases h
      rfl

def Known (st : ArtifactStore) (parent : Artifact) (version : Nat) : Prop :=
  ∃ b, st.readMetadata ((versionKey parent version).contentKey .draft) = .ok b

def Free (st : ArtifactStore) (parent : Artifact) (version : Nat) : Prop :=
  ∃ missing, st.readMetadata ((versionKey parent version).contentKey .draft) =
    .error (.notFound missing)

theorem free_of_error {parent : Artifact} {left first w : Nat} {e : StorageError}
    (hread : st.readMetadata ((versionKey parent first).contentKey .draft) = .error e)
    (h : (run now (Artifact.freeVersion parent left first) st).1 = .ok w) :
    first ≤ w ∧ Free st parent w ∧ ∀ u, first ≤ u → u < w → Known st parent u := by
  rw [run_freeVersion_eq, hread] at h
  cases e
  case notFound missing =>
    cases h
    exact ⟨le_rfl, ⟨missing, hread⟩, fun u hle hlt => by omega⟩
  all_goals cases h

theorem free_of_run_freeVersion {parent : Artifact} {left first w : Nat}
    (h : (run now (Artifact.freeVersion parent left first) st).1 = .ok w) : Free st parent w := by
  induction left generalizing first with
  | zero =>
    rcases hread : st.readMetadata ((versionKey parent first).contentKey .draft) with e | b
    · exact (free_of_error hread h).2.1
    · rw [run_freeVersion_eq, hread] at h
      cases h
  | succ left ih =>
    rcases hread : st.readMetadata ((versionKey parent first).contentKey .draft) with e | b
    · exact (free_of_error hread h).2.1
    · rw [run_freeVersion_eq, hread] at h
      exact ih h

/-- The version that is found is the first that is not known, unless the numbers start anew. -/
theorem known_of_run_freeVersion {parent : Artifact} {left first w : Nat}
    (hleft : left ≤ Artifact.versionsAfter first)
    (room : first = 0xffff_ffff → ¬ Known st parent first)
    (h : (run now (Artifact.freeVersion parent left first) st).1 = .ok w) :
    first ≤ w ∧ ∀ u, first ≤ u → u < w → Known st parent u := by
  induction left generalizing first with
  | zero =>
    rcases hread : st.readMetadata ((versionKey parent first).contentKey .draft) with e | b
    · exact ⟨(free_of_error hread h).1, (free_of_error hread h).2.2⟩
    · rw [run_freeVersion_eq, hread] at h
      cases h
  | succ left ih =>
    rcases hread : st.readMetadata ((versionKey parent first).contentKey .draft) with e | b
    · exact ⟨(free_of_error hread h).1, (free_of_error hread h).2.2⟩
    · rw [run_freeVersion_eq, hread] at h
      have word : first < 0xffff_ffff := by
        have apart : first ≠ 0xffff_ffff := fun hlast => room hlast ⟨b, hread⟩
        rw [Artifact.versionsAfter, if_neg apart, Artifact.lastVersion] at hleft
        omega
      obtain ⟨later, hlast⟩ := Artifact.le_versionsAfter_next hleft
      rw [Artifact.nextVersion_of_lt word] at h later hlast
      have next : first + 1 ≠ 0xffff_ffff := by
        rw [Artifact.lastVersion] at hlast
        omega
      obtain ⟨hle, htaken⟩ := ih later (fun h => absurd h next) h
      refine ⟨by omega, fun u hu hlt => ?_⟩
      rcases Nat.eq_or_lt_of_le hu with rfl | hu
      · exact ⟨b, hread⟩
      · exact htaken u hu hlt

/-- A refined artifact is the first free version after its parent, which the store knows, unless
the numbers start anew. -/
theorem artifact_of_run_refine {parentKey content : String} {status : ContentStatus}
    (h : run now (Artifact.refine parentKey content status) st = (.ok a, st')) :
    ∃ p w, st.readMetadata parentKey = .ok p ∧
      w ≤ max (p.version + 1) Artifact.lastVersion ∧ Free st p w ∧
      ((Artifact.nextVersion p.version = 0xffff_ffff →
          ¬ Known st p (Artifact.nextVersion p.version)) →
        Artifact.nextVersion p.version ≤ w ∧
          ∀ u, Artifact.nextVersion p.version ≤ u → u < w → Known st p u) ∧
      a = (Artifact.Version.ofParent p w content status).artifact
        ((versionKey p w).contentKey status) now := by
  rw [Artifact.refine, run_bind, run_readMetadata] at h
  rcases hread : st.readMetadata parentKey with e | p
  · rw [hread] at h
    cases h
  · rw [hread] at h
    let first := Artifact.nextVersion p.version
    change run now (Artifact.freeVersion p (Artifact.versionsAfter first) first >>= _) st = _ at h
    rw [run_bind] at h
    obtain ⟨same, bound⟩ := run_freeVersion now st p (Nat.le_refl (Artifact.versionsAfter first))
    rw [same] at h
    rcases hfound : (run now (Artifact.freeVersion p (Artifact.versionsAfter first) first) st).1
      with e | w
    · rw [hfound] at h
      cases h
    · rw [hfound] at h
      have hmod : first ≤ p.version + 1 := Nat.mod_le _ _
      have hbound : w ≤ max (p.version + 1) Artifact.lastVersion := by
        have := (bound w hfound).1
        omega
      exact ⟨p, w, rfl, hbound, free_of_run_freeVersion hfound,
        fun room => known_of_run_freeVersion (Nat.le_refl _) room hfound, artifact_of_run_store h⟩

theorem run_refine_of_free {p : Artifact} {parentKey : String} (hp : st.readMetadata parentKey = .ok p)
    (hfree : Free st p (Artifact.nextVersion p.version)) (content : String)
    (status : ContentStatus) :
    run now (Artifact.refine parentKey content status) st =
      run now (Artifact.store
        (.ofParent p (Artifact.nextVersion p.version) content status)) st := by
  obtain ⟨missing, hmissing⟩ := hfree
  rw [Artifact.refine, run_bind, run_readMetadata, hp]
  dsimp only
  rw [run_bind, run_freeVersion_eq, hmissing]

theorem run_store_of_free {v : Artifact.Version} {side : String}
    (hside : ArtifactKey.side? (v.key.contentKey v.status) = some side)
    (hcontent : ¬ m.Taken (v.key.contentKey v.status)) (hfree : ¬ m.Taken side)
    (now : Timestamp) :
    ∃ a m', run now (Artifact.store v) (memory m) = (.ok a, memory m') := by
  obtain ⟨⟨k, status⟩, hread, rfl⟩ := Option.map_eq_some_iff.mp hside
  have apart : k.metadataKey ≠ v.key.contentKey v.status := ArtifactKey.metadataKey_ne hread
  have written : (memory m).answer (.writeArtifact v.key v.content v.status) =
      (.ok (v.key.contentKey v.status),
        memory ⟨Fields.insert (v.key.contentKey v.status) v.content m.entries⟩) := by
    rw [answer, MemoryStore.answer, MemoryStore.create_of_not_taken hcontent]
    rfl
  have free : ¬ MemoryStore.Taken
      ⟨Fields.insert (v.key.contentKey v.status) v.content m.entries⟩ k.metadataKey := by
    rw [MemoryStore.Taken, Fields.get?_insert_of_ne apart.symm]
    exact hfree
  have described := MemoryStore.writeMetadata_eq
    (m := ⟨Fields.insert (v.key.contentKey v.status) v.content m.entries⟩)
    (a := v.artifact (v.key.contentKey v.status) now) hread
  rw [MemoryStore.create_of_not_taken free] at described
  exact ⟨_, _, run_store_of_ok written described⟩

/-- Whatever call keeps an artifact in a store in memory, it is all or nothing. -/
theorem run_keeping_outcome (m : MemoryStore) (hnow : now.Shown) {k : Keeping}
    (hsize : k.content.size < 0x1_0000_0000_0000_0000) :
    Outcome (.memory m) k.content False (run now k.activity (.memory m)) := by
  cases k with
  | persist d =>
    have outcome := run_store_outcome (.memory m) (.ofDraft d) (by decide : 1 < 0x1_0000_0000)
      hsize hnow
    have removable : ¬ Strands (.memory m) (.ofDraft d) := fun h => h.1 trivial
    rw [eq_false removable] at outcome
    exact outcome
  | refine parentKey content status => exact run_refine_outcome hnow hsize parentKey status

theorem readMetadata_of_kept (h : Kept (.memory m) (.memory m')) (key : String) :
    m'.readMetadata key = m.readMetadata key := by
  have same (side : String) : Fields.get? side m'.entries = Fields.get? side m.entries := h.2 [side]
  rw [MemoryStore.readMetadata_eq, MemoryStore.readMetadata_eq]
  simp only [same]

theorem get?_of_gains {content : ByteArray} (h : Gains (.memory m) a content (.memory m')) :
    ∃ side bytes, ArtifactKey.side? a.storageKey = some side ∧ ¬ m.Taken side ∧
      Artifact.ofBytes bytes = .ok a ∧ Fields.get? side m'.entries = some bytes ∧
      ∀ key, key ≠ a.storageKey → key ≠ side →
        Fields.get? key m'.entries = Fields.get? key m.entries := by
  obtain ⟨k, p, q, bytes, hread, hp, hq, hne, -, hfree, hentries, hback⟩ := h
  obtain rfl : [a.storageKey] = p := Except.ok.inj hp
  obtain rfl : [k.1.metadataKey] = q := Except.ok.inj hq
  have hside : ArtifactKey.side? a.storageKey = some k.1.metadataKey := by
    rw [ArtifactKey.side?, hread]
    rfl
  have hbytes : Fields.get? k.1.metadataKey m'.entries = some bytes := by
    have there := hentries [k.1.metadataKey]
    rw [if_neg hne.symm, if_pos rfl] at there
    exact there
  obtain ⟨side, bytes', hside', hbytes', hdecoded⟩ := MemoryStore.readMetadata_eq_ok.mp hback
  obtain rfl : k.1.metadataKey = side := Option.some_inj.mp (hside.symm.trans hside')
  obtain rfl : bytes = bytes' := Option.some_inj.mp (hbytes.symm.trans hbytes')
  refine ⟨_, bytes, hside, not_not.mpr hfree, hdecoded, hbytes, fun key hkey hkey' => ?_⟩
  have elsewhere := hentries [key]
  rw [if_neg (by simpa using hkey), if_neg (by simpa using hkey')] at elsewhere
  exact elsewhere

/-- The store reads back what it could read before, and the artifact. -/
theorem readMetadata_of_gains {content : ByteArray} {key : String} {b : Artifact}
    (h : Gains (.memory m) a content (.memory m')) :
    m'.readMetadata key = .ok b ↔
      ArtifactKey.side? key = ArtifactKey.side? a.storageKey ∧ b = a ∨
        m.readMetadata key = .ok b := by
  obtain ⟨side, bytes, hside, hfree, hdecoded, hbytes, hothers⟩ := get?_of_gains h
  have others (s : String) (hs : ArtifactKey.side? key = some s) (hne : s ≠ side) :
      Fields.get? s m'.entries = Fields.get? s m.entries := by
    refine hothers s ?_ hne
    rintro rfl
    exact ArtifactKey.not_isSide_of_side hside ⟨key, hs⟩
  rw [MemoryStore.readMetadata_eq_ok, MemoryStore.readMetadata_eq_ok, hside]
  constructor
  · rintro ⟨s, bytes', hs, hbytes', hb⟩
    by_cases hsame : s = side
    · subst hsame
      obtain rfl : bytes = bytes' := Option.some_inj.mp (hbytes.symm.trans hbytes')
      exact .inl ⟨hs, Except.ok.inj (hb.symm.trans hdecoded)⟩
    · exact .inr ⟨s, bytes', hs, (others s hs hsame).symm.trans hbytes', hb⟩
  · rintro (⟨hs, rfl⟩ | ⟨s, bytes', hs, hbytes', hb⟩)
    · exact ⟨side, bytes, hs, hbytes, hdecoded⟩
    · have hsame : s ≠ side := by
        rintro rfl
        refine hfree ?_
        rw [MemoryStore.Taken, hbytes']
        exact Option.some_ne_none _
      exact ⟨s, bytes', hs, (others s hs hsame).trans hbytes', hb⟩

end ArtifactStore

namespace Artifact

/-- Two artifacts have these in common when one of them is a later version of the other. -/
structure Kin (a b : Artifact) : Prop where
  capability : b.capability = a.capability
  name : b.name = a.name
  extension : b.extension = a.extension
  executionId : b.executionId = a.executionId

theorem Kin.refl (a : Artifact) : Kin a a := ⟨rfl, rfl, rfl, rfl⟩

theorem Kin.trans {a b c : Artifact} (h : Kin a b) (h' : Kin b c) : Kin a c :=
  ⟨h'.capability.trans h.capability, h'.name.trans h.name, h'.extension.trans h.extension,
    h'.executionId.trans h.executionId⟩

end Artifact

namespace MemoryStore

open Artifact (Kin)

variable {m m' : MemoryStore} {a : Artifact}

/-- An artifact is a first version, or a later one of an artifact in the store. -/
def Descends (m : MemoryStore) (a : Artifact) : Prop :=
  a.derivedFrom = none ∧ a.version = 1 ∨
    ∃ p, m.readMetadata p.storageKey = .ok p ∧ a.derivedFrom = some p.storageKey ∧
      p.version < a.version ∧ Kin a p

/-- Every artifact is found under the key that it tells, and descends from others in the store. -/
def Traceable (m : MemoryStore) : Prop :=
  ∀ key a, m.readMetadata key = .ok a → m.readMetadata a.storageKey = .ok a ∧ m.Descends a

theorem Descends.mono (h : m.Descends a)
    (hkept : ∀ key b, m.readMetadata key = .ok b → m'.readMetadata key = .ok b) :
    m'.Descends a := by
  rcases h with hroot | ⟨p, hp, hrest⟩
  · exact .inl hroot
  · exact .inr ⟨p, hkept _ _ hp, hrest⟩

/-- The sidecar of a version of the artifact is taken. -/
def HasVersion (m : MemoryStore) (p : Artifact) (version : Nat) : Prop :=
  ∃ side, ArtifactKey.side? ((ArtifactStore.versionKey p version).contentKey .draft) = some side ∧
    m.Taken side

/-- Versions stay below `2 ^ 32 - 1`: no artifact has that number, nor is it found taken as the
number after an artifact's, as it may be by a name that ends like a version. -/
def Numbered (m : MemoryStore) : Prop :=
  ∀ key a, m.readMetadata key = .ok a → a.version < 0xffff_ffff ∧
    (a.version + 1 = 0xffff_ffff → ¬ (ArtifactStore.memory m).Known a 0xffff_ffff)

theorem hasVersion_of_known {p : Artifact} {version : Nat}
    (h : (ArtifactStore.memory m).Known p version) : m.HasVersion p version := by
  obtain ⟨b, hb⟩ := h
  obtain ⟨side, bytes, hside, hbytes, -⟩ := readMetadata_eq_ok.mp hb
  refine ⟨side, hside, ?_⟩
  rw [Taken, hbytes]
  exact Option.some_ne_none _

/-- With room for a next version, the numbers after an artifact do not start anew. -/
theorem Numbered.room (h : m.Numbered) {key : String} {p : Artifact}
    (hp : m.readMetadata key = .ok p) :
    Artifact.nextVersion p.version = p.version + 1 ∧
      (Artifact.nextVersion p.version = 0xffff_ffff →
        ¬ (ArtifactStore.memory m).Known p (Artifact.nextVersion p.version)) := by
  obtain ⟨word, free⟩ := h key p hp
  have next := Artifact.nextVersion_of_lt word
  refine ⟨next, fun last known => ?_⟩
  rw [last] at known
  exact free (next.symm.trans last) known

theorem readMetadata_empty (key : String) (a : Artifact) : empty.readMetadata key ≠ .ok a := by
  intro h
  obtain ⟨side, bytes, -, hbytes, -⟩ := readMetadata_eq_ok.mp h
  cases hbytes

theorem traceable_empty : empty.Traceable := fun key a h => absurd h (readMetadata_empty key a)

/-- What a call keeps descends from what the store had. -/
theorem descends_of_run {now : Timestamp} {k : Keeping} {st' : ArtifactStore}
    (h : m.Traceable) (hnumbered : m.Numbered)
    (hrun : ArtifactStore.run now k.activity (.memory m) = (.ok a, st')) : m.Descends a := by
  cases k with
  | persist d =>
    obtain rfl := ArtifactStore.artifact_of_run_store hrun
    exact .inl ⟨rfl, rfl⟩
  | refine parentKey content status =>
    obtain ⟨p, w, hp, -, -, hfirst, rfl⟩ := ArtifactStore.artifact_of_run_refine hrun
    obtain ⟨next, room⟩ := hnumbered.room hp
    have hlater : p.version < w := by
      have := (hfirst room).1
      omega
    exact .inr ⟨p, (h parentKey p hp).1, rfl, hlater, ⟨rfl, rfl, rfl, rfl⟩⟩

/-- A call that keeps an artifact leaves the store with what it had, and with the artifact. -/
theorem readMetadata_of_run {now : Timestamp} {k : Keeping} (hnow : now.Shown)
    (hsize : k.content.size < 0x1_0000_0000_0000_0000) {x : Except StorageError Artifact}
    (hrun : ArtifactStore.run now k.activity (.memory m) = (x, .memory m')) (key : String)
    (b : Artifact) :
    m'.readMetadata key = .ok b ↔
      x = .ok b ∧ ArtifactKey.side? key = ArtifactKey.side? b.storageKey ∨
        m.readMetadata key = .ok b := by
  have outcome := ArtifactStore.run_keeping_outcome m hnow hsize
  rw [hrun] at outcome
  rcases x with err | a
  · rw [ArtifactStore.readMetadata_of_kept (outcome.1 not_false)]
    simp
  · rw [ArtifactStore.readMetadata_of_gains outcome.2, Except.ok.injEq]
    constructor
    · rintro (⟨hside, rfl⟩ | hold)
      · exact .inl ⟨rfl, hside⟩
      · exact .inr hold
    · rintro (⟨rfl, hside⟩ | hold)
      · exact .inl ⟨hside, rfl⟩
      · exact .inr hold

theorem Traceable.keep {now : Timestamp} {k : Keeping} (h : m.Traceable) (hnumbered : m.Numbered)
    (hnow : now.Shown) (hsize : k.content.size < 0x1_0000_0000_0000_0000)
    {x : Except StorageError Artifact}
    (hrun : ArtifactStore.run now k.activity (.memory m) = (x, .memory m')) : m'.Traceable := by
  have read := readMetadata_of_run hnow hsize hrun
  have kept (key : String) (b : Artifact) (hb : m.readMetadata key = .ok b) :
      m'.readMetadata key = .ok b := (read key b).mpr (.inr hb)
  intro key a ha
  rcases (read key a).mp ha with ⟨rfl, hside⟩ | hold
  · exact ⟨(read a.storageKey a).mpr (.inl ⟨rfl, rfl⟩),
      (descends_of_run h hnumbered hrun).mono kept⟩
  · obtain ⟨hfound, hdescends⟩ := h key a hold
    exact ⟨kept _ _ hfound, hdescends.mono kept⟩

/-- The artifacts from one of the store back to a first version, each with its parent after it. -/
inductive Line (m : MemoryStore) : Artifact → List Artifact → Prop
  | first {a : Artifact} (stored : m.readMetadata a.storageKey = .ok a)
    (root : a.derivedFrom = none) (version : a.version = 1) : Line m a [a]
  | next {a p : Artifact} {as : List Artifact} (stored : m.readMetadata a.storageKey = .ok a)
    (link : a.derivedFrom = some p.storageKey) (later : p.version < a.version) (kin : Kin a p)
    (rest : Line m p as) : Line m a (a :: as)

theorem Traceable.line (h : m.Traceable) (a : Artifact)
    (ha : m.readMetadata a.storageKey = .ok a) : ∃ as, m.Line a as := by
  -- Parents have smaller versions.
  induction hn : a.version using Nat.strong_induction_on generalizing a with
  | _ n ih =>
    rcases (h _ a ha).2 with ⟨hroot, hversion⟩ | ⟨p, hp, hlink, hlater, hkin⟩
    · exact ⟨[a], .first ha hroot hversion⟩
    · obtain ⟨as, has⟩ := ih p.version (hn ▸ hlater) p hp rfl
      exact ⟨a :: as, .next ha hlink hlater hkin has⟩

namespace Line

variable {as : List Artifact}

theorem eq_cons (h : m.Line a as) : ∃ rest, as = a :: rest := by
  cases h with
  | first => exact ⟨[], rfl⟩
  | next _ _ _ _ rest => exact ⟨_, rfl⟩

theorem stored (h : m.Line a as) : ∀ b ∈ as, m.readMetadata b.storageKey = .ok b := by
  induction h with
  | first hstored => simpa using hstored
  | next hstored _ _ _ _ ih => simpa using ⟨hstored, ih⟩

theorem version_le (h : m.Line a as) : ∀ b ∈ as, b.version ≤ a.version := by
  induction h with
  | first => simp
  | next _ _ hlater _ _ ih =>
    intro b hb
    rcases List.mem_cons.mp hb with rfl | hb
    · exact le_rfl
    · exact (ih b hb).trans hlater.le

theorem decreasing (h : m.Line a as) : as.Pairwise fun b c => c.version < b.version := by
  induction h with
  | first => simp
  | next _ _ hlater _ rest ih =>
    refine List.pairwise_cons.mpr ⟨fun c hc => ?_, ih⟩
    have := rest.version_le c hc
    omega

theorem kin (h : m.Line a as) : ∀ b ∈ as, Kin a b := by
  induction h with
  | @first a => simpa using Kin.refl a
  | @next a p as _ _ _ hkin _ ih =>
    intro b hb
    rcases List.mem_cons.mp hb with rfl | hb
    · exact Kin.refl b
    · exact hkin.trans (ih b hb)

theorem links (h : m.Line a as) :
    as.IsChain fun b c => b.derivedFrom = some c.storageKey := by
  induction h with
  | first => exact .singleton _
  | next _ hlink _ _ rest ih =>
    obtain ⟨others, rfl⟩ := rest.eq_cons
    exact .cons_cons hlink ih

theorem last (h : m.Line a as) :
    ∃ r, as.getLast? = some r ∧ r.version = 1 ∧ r.derivedFrom = none := by
  induction h with
  | first _ hroot hversion => exact ⟨_, rfl, hversion, hroot⟩
  | next _ _ _ _ rest ih =>
    obtain ⟨r, hr, hlast⟩ := ih
    obtain ⟨others, rfl⟩ := rest.eq_cons
    exact ⟨r, by rw [List.getLast?_cons_cons, hr], hlast⟩

theorem length_le (h : m.Line a as) : as.length ≤ m.entries.length := by
  have side (b : Artifact) (hb : b ∈ as) : ∃ s bytes, ArtifactKey.side? b.storageKey = some s ∧
      Fields.get? s m.entries = some bytes ∧ Artifact.ofBytes bytes = .ok b :=
    readMetadata_eq_ok.mp (h.stored b hb)
  have sub : as.map (fun b => ArtifactKey.side? b.storageKey) ⊆
      (Fields.keys m.entries).map some := by
    intro s hs
    obtain ⟨b, hb, rfl⟩ := List.mem_map.mp hs
    obtain ⟨s, bytes, hside, hbytes, -⟩ := side b hb
    rw [hside]
    exact List.mem_map.mpr ⟨s, List.mem_map.mpr ⟨(s, bytes), Fields.mem_of_get? hbytes, rfl⟩, rfl⟩
  have apart : (as.map fun b => ArtifactKey.side? b.storageKey).Nodup := by
    refine List.pairwise_map.mpr (h.decreasing.imp_of_mem fun {b c} hb hc hlt hsame => ?_)
    obtain ⟨s, bytes, hside, hbytes, hdecoded⟩ := side b hb
    obtain ⟨s', bytes', hside', hbytes', hdecoded'⟩ := side c hc
    obtain rfl : s = s' := Option.some_inj.mp (hside.symm.trans (hsame.trans hside'))
    obtain rfl : bytes = bytes' := Option.some_inj.mp (hbytes.symm.trans hbytes')
    obtain rfl : b = c := Except.ok.inj (hdecoded.symm.trans hdecoded')
    omega
  have le := (apart.subperm sub).length_le
  simpa [Fields.keys] using le

end Line

end MemoryStore

namespace Artifact

variable {read : String → Except StorageError Artifact} {left : Nat} {visited : List String}
  {key parent : String} {a : Artifact}

theorem lineageFrom_first (hkey : key ∉ visited) (hread : read key = .ok a)
    (hroot : a.derivedFrom = none) : lineageFrom read left visited key = .ok [a] := by
  rw [lineageFrom.eq_def]
  dsimp only
  rw [if_neg (by simpa using hkey), hread]
  dsimp only [Bind.bind, Except.bind]
  rw [hroot]
  rfl

theorem lineageFrom_next (hkey : key ∉ visited) (hread : read key = .ok a)
    (hlink : a.derivedFrom = some parent) :
    lineageFrom read (left + 1) visited key =
      (lineageFrom read left (key :: visited) parent).map (a :: ·) := by
  rw [lineageFrom, if_neg (by simpa using hkey), hread]
  dsimp only [Bind.bind, Except.bind]
  rw [hlink]
  dsimp only
  cases lineageFrom read left (key :: visited) parent <;> rfl

theorem lineageFrom_of_line {m : MemoryStore} {as : List Artifact} (h : m.Line a as)
    (hlength : as.length ≤ left + 1)
    (hvisited : ∀ key ∈ visited, ∀ b, m.readMetadata key = .ok b → a.version < b.version) :
    lineageFrom m.readMetadata left visited a.storageKey = .ok as := by
  have fresh {b : Artifact} {keys : List String} (hb : m.readMetadata b.storageKey = .ok b)
      (hkeys : ∀ key ∈ keys, ∀ c, m.readMetadata key = .ok c → b.version < c.version) :
      b.storageKey ∉ keys := fun hmem => absurd (hkeys _ hmem b hb) (lt_irrefl _)
  induction h generalizing left visited with
  | first hstored hroot => exact lineageFrom_first (fresh hstored hvisited) hstored hroot
  | @next a p as hstored hlink hlater _ rest ih =>
    have longer : 0 < as.length := by
      obtain ⟨others, rfl⟩ := rest.eq_cons
      exact Nat.succ_pos _
    obtain ⟨left, rfl⟩ : ∃ n, left = n + 1 := by
      rw [List.length_cons] at hlength
      exact Nat.exists_eq_add_one.mpr (by omega)
    rw [List.length_cons] at hlength
    rw [lineageFrom_next (fresh hstored hvisited) hstored hlink, ih (by omega)]
    · rfl
    · intro key hkey b hb
      rcases List.mem_cons.mp hkey with rfl | hkey
      · rw [hstored] at hb
        cases hb
        exact hlater
      · exact hlater.trans (hvisited key hkey b hb)

end Artifact

/-- The artifacts from `a` back to a first version, each of which was refined from the next. -/
structure Artifact.IsLineage (a : Artifact) (as : List Artifact) : Prop where
  first : as.head? = some a
  links : as.IsChain fun b c => b.derivedFrom = some c.storageKey
  decreasing : as.Pairwise fun b c => c.version < b.version
  kin : ∀ b ∈ as, Artifact.Kin a b
  last : ∃ r, as.getLast? = some r ∧ r.version = 1 ∧ r.derivedFrom = none

theorem MemoryStore.Line.isLineage {m : MemoryStore} {a : Artifact} {as : List Artifact}
    (h : m.Line a as) : a.IsLineage as where
  first := by
    obtain ⟨rest, rfl⟩ := h.eq_cons
    rfl
  links := h.links
  decreasing := h.decreasing
  kin := h.kin
  last := h.last

namespace MemoryStore

variable {m m' : MemoryStore}

theorem Traceable.lineage (h : m.Traceable) {key : String} {a : Artifact}
    (ha : m.readMetadata key = .ok a) :
    ∃ as, (ArtifactStore.memory m).lineage a.storageKey = .ok as ∧ a.IsLineage as := by
  obtain ⟨as, hline⟩ := h.line a (h key a ha).1
  have enough : as.length ≤ m.entries.length + 1 + 1 := by
    have := hline.length_le
    omega
  exact ⟨as, Artifact.lineageFrom_of_line hline enough nofun, hline.isLineage⟩

/-- The artifact `a` is stored as the least version after `p` that was free, and what is stored of
`p` is left as it was. -/
structure Succeeds (m : MemoryStore) (p a : Artifact) (m' : MemoryStore) : Prop where
  stored : m'.readMetadata ((ArtifactStore.versionKey p a.version).contentKey .draft) = .ok a
  link : a.derivedFrom = some p.storageKey
  kin : Artifact.Kin a p
  later : p.version < a.version
  free : ¬ m.HasVersion p a.version
  least : ∀ u, p.version < u → u < a.version → m.HasVersion p u
  kept : ∀ key, key = p.storageKey ∨ ArtifactKey.side? p.storageKey = some key →
    Fields.get? key m'.entries = Fields.get? key m.entries

theorem Traceable.succeeds (h : m.Traceable) (hnumbered : m.Numbered) {now : Timestamp}
    {parentKey content : String} {status : ContentStatus} {a : Artifact} (hnow : now.Shown)
    (hsize : content.toUTF8.size < 0x1_0000_0000_0000_0000)
    (hrun : ArtifactStore.run now (Artifact.refine parentKey content status) (.memory m) =
      (.ok a, .memory m')) :
    ∃ p, m.readMetadata parentKey = .ok p ∧ m.Succeeds p a m' := by
  have outcome : ArtifactStore.Outcome (.memory m) content.toUTF8 False
      (ArtifactStore.run now (Artifact.refine parentKey content status) (.memory m)) :=
    ArtifactStore.run_refine_outcome hnow hsize parentKey status
  rw [hrun] at outcome
  obtain ⟨p, w, hp, -, ⟨missing, hfree⟩, hfirst, rfl⟩ := ArtifactStore.artifact_of_run_refine hrun
  obtain ⟨next, room⟩ := hnumbered.room hp
  obtain ⟨hle, hknown⟩ := hfirst room
  have hlater : p.version < w := by omega
  obtain ⟨side, bytes, hside, hnew, -, -, hothers⟩ := ArtifactStore.get?_of_gains outcome.2
  obtain ⟨own, bytes', hown, hbytes', -⟩ := readMetadata_eq_ok.mp (h parentKey p hp).1
  have taken : m.Taken own := by
    rw [Taken, hbytes']
    exact Option.some_ne_none _
  have apart : own ≠ side := by
    rintro rfl
    exact hnew taken
  refine ⟨p, hp, ?_, rfl, ⟨rfl, rfl, rfl, rfl⟩, hlater, ?_, fun u hu hlt => ?_, fun key hkey => ?_⟩
  · refine (ArtifactStore.readMetadata_of_gains outcome.2).mpr (.inl ⟨?_, rfl⟩)
    exact ArtifactKey.side?_contentKey _ _ _
  · rintro ⟨s, hs, htaken⟩
    obtain ⟨s', hs', hnot⟩ := free_of_notFound hfree
    obtain rfl : s = s' := Option.some_inj.mp (hs.symm.trans hs')
    exact hnot htaken
  · exact hasVersion_of_known (hknown u (by omega) hlt)
  · rcases hkey with rfl | hkey
    · refine hothers _ ?_ ?_
      · intro hsame
        rw [hsame, hside, Option.some_inj] at hown
        exact apart hown.symm
      · intro hsame
        exact ArtifactKey.not_isSide_of_side hown ⟨_, hsame ▸ hside⟩
    · obtain rfl : own = key := Option.some_inj.mp (hown.symm.trans hkey)
      refine hothers _ ?_ apart
      intro hsame
      exact ArtifactKey.not_isSide_of_side hside ⟨_, hsame ▸ hown⟩

end MemoryStore

namespace ArtifactStore

variable {m m' : MemoryStore} {calls : List (Timestamp × Keeping)}

/-- The store after calls that keep artifacts, one after the other, each at a reading of the
clock. -/
def keepAll : ArtifactStore → List (Timestamp × Keeping) → ArtifactStore
  | st, [] => st
  | st, (now, k) :: rest => (run now k.activity st).2.keepAll rest

def Plain (call : Timestamp × Keeping) : Prop :=
  call.1.Shown ∧ call.2.content.size < 0x1_0000_0000_0000_0000

theorem keepAll_cons {now : Timestamp} {k : Keeping}
    (hrun : (memory m).keepAll ((now, k) :: calls) = memory m') :
    ∃ x m₁, run now k.activity (.memory m) = (x, .memory m₁) ∧
      (memory m₁).keepAll calls = memory m' := by
  obtain ⟨m₁, hm₁⟩ := run_memory now k.activity m
  rw [keepAll, hm₁] at hrun
  exact ⟨_, m₁, Prod.ext rfl hm₁, hrun⟩

theorem readMetadata_of_keepAll (hcalls : ∀ call ∈ calls, Plain call)
    (hrun : (memory m).keepAll calls = memory m') {key : String} {b : Artifact}
    (hb : m.readMetadata key = .ok b) : m'.readMetadata key = .ok b := by
  induction calls generalizing m with
  | nil =>
    cases hrun
    exact hb
  | cons call rest ih =>
    obtain ⟨hnow, hsize⟩ := hcalls call List.mem_cons_self
    obtain ⟨x, m₁, hfirst, hrest⟩ := keepAll_cons hrun
    have kept := (MemoryStore.readMetadata_of_run hnow hsize hfirst key b).mpr (.inr hb)
    exact ih (fun c hc => hcalls c (List.mem_cons_of_mem _ hc)) hrest kept

theorem numbered_of_later (hcalls : ∀ call ∈ calls, Plain call)
    (hrun : (memory m).keepAll calls = memory m') (hnumbered : m'.Numbered) : m.Numbered := by
  intro key a ha
  obtain ⟨word, room⟩ := hnumbered key a (readMetadata_of_keepAll hcalls hrun ha)
  refine ⟨word, fun next known => room next ?_⟩
  obtain ⟨b, hb⟩ := known
  exact ⟨b, readMetadata_of_keepAll hcalls hrun hb⟩

theorem traceable_keepAll (hcalls : ∀ call ∈ calls, Plain call) (hm : m.Traceable)
    (hrun : (memory m).keepAll calls = memory m') (hnumbered : m'.Numbered) : m'.Traceable := by
  induction calls generalizing m with
  | nil =>
    cases hrun
    exact hm
  | cons call rest ih =>
    obtain ⟨hnow, hsize⟩ := hcalls call List.mem_cons_self
    have hnumbered₀ := numbered_of_later hcalls hrun hnumbered
    obtain ⟨x, m₁, hfirst, hrest⟩ := keepAll_cons hrun
    have hm₁ := hm.keep hnumbered₀ hnow hsize hfirst
    exact ih (fun c hc => hcalls c (List.mem_cons_of_mem _ hc)) hm₁ hrest

/-- With each call the highest version grows by one at most, once no lower one is tried. -/
theorem version_le_of_keepAll (hcalls : ∀ call ∈ calls, Plain call) {n : Nat}
    (hm : ∀ key a, m.readMetadata key = .ok a → a.version ≤ Artifact.lastVersion + n)
    (hrun : (memory m).keepAll calls = memory m') :
    ∀ key a, m'.readMetadata key = .ok a →
      a.version ≤ Artifact.lastVersion + n + calls.length := by
  induction calls generalizing m n with
  | nil =>
    cases hrun
    exact hm
  | cons call rest ih =>
    obtain ⟨now, k⟩ := call
    obtain ⟨hnow, hsize⟩ := hcalls (now, k) List.mem_cons_self
    obtain ⟨x, m₁, hfirst, hrest⟩ := keepAll_cons hrun
    have hm₁ : ∀ key a, m₁.readMetadata key = .ok a →
        a.version ≤ Artifact.lastVersion + (n + 1) := by
      intro key a ha
      rcases (MemoryStore.readMetadata_of_run hnow hsize hfirst key a).mp ha with ⟨rfl, -⟩ | hold
      · cases k with
        | persist d =>
          obtain rfl := artifact_of_run_store hfirst
          exact (by decide : 1 ≤ Artifact.lastVersion).trans (Nat.le_add_right _ _)
        | refine parentKey content status =>
          obtain ⟨p, w, hp, hbound, -, -, rfl⟩ := artifact_of_run_refine hfirst
          have hversion := hm parentKey p hp
          change w ≤ _
          omega
      · have := hm key a hold
        omega
    intro key a ha
    have := ih (fun c hc => hcalls c (List.mem_cons_of_mem _ hc)) hm₁ hrest key a ha
    rw [List.length_cons]
    omega

theorem numbered_of_keepAll (hcalls : ∀ call ∈ calls, Plain call)
    (hrun : (memory .empty).keepAll calls = memory m)
    (hfew : Artifact.lastVersion + calls.length + 1 < 0xffff_ffff) : m.Numbered := by
  intro key a ha
  have hempty : ∀ key a, MemoryStore.empty.readMetadata key = .ok a →
      a.version ≤ Artifact.lastVersion + 0 :=
    fun key a h => absurd h (MemoryStore.readMetadata_empty key a)
  have := version_le_of_keepAll hcalls hempty hrun key a ha
  omega

/-- In a store that calls have filled, with versions below `2 ^ 32 - 1`, every artifact is traced back
to its first version, and an artifact that is refined next succeeds its parent. -/
theorem provenance_sound (hcalls : ∀ call ∈ calls, Plain call)
    (hrun : (memory .empty).keepAll calls = memory m) (hnumbered : m.Numbered) :
    (∀ key a, m.readMetadata key = .ok a →
      ∃ as, (memory m).lineage a.storageKey = .ok as ∧ a.IsLineage as) ∧
    ∀ now parentKey content status a st', Plain (now, .refine parentKey content status) →
      run now (Artifact.refine parentKey content status) (memory m) = (.ok a, st') →
      ∃ p m', st' = memory m' ∧ m.readMetadata parentKey = .ok p ∧ m.Succeeds p a m' := by
  have traceable := traceable_keepAll hcalls MemoryStore.traceable_empty hrun hnumbered
  refine ⟨fun key a ha => traceable.lineage ha,
    fun now parentKey content status a st' hplain hrefined => ?_⟩
  obtain ⟨m', hm'⟩ := run_memory now (Artifact.refine parentKey content status) m
  rw [hrefined] at hm'
  obtain rfl : st' = memory m' := hm'
  obtain ⟨p, hp, hsucceeds⟩ := traceable.succeeds hnumbered hplain.1 hplain.2 hrefined
  exact ⟨p, m', rfl, hp, hsucceeds⟩

/-- The article is kept, and refined once. -/
theorem refined_article_sound :
    ∃ m, (∀ call ∈ [((⟨0, 0⟩ : Timestamp), Keeping.persist article)], Plain call) ∧
      (memory .empty).keepAll [(⟨0, 0⟩, .persist article)] = memory m ∧ m.Numbered ∧
      ∃ a p m', run ⟨0, 0⟩ (Artifact.refine article.contentKey "# Final" .published) (memory m) =
        (.ok a, memory m') ∧ m.readMetadata article.contentKey = .ok p ∧ m.Succeeds p a m' := by
  have hshown : (⟨0, 0⟩ : Timestamp).Shown := by decide
  have hcalls : ∀ call ∈ [((⟨0, 0⟩ : Timestamp), Keeping.persist article)], Plain call := by
    intro call hcall
    obtain rfl := List.mem_singleton.mp hcall
    exact ⟨hshown, (by decide : article.content.toUTF8.size < 0x1_0000_0000_0000_0000)⟩
  have fits : article.Fits MemoryStore.empty.Taken :=
    ⟨"seo/metadata/exec-1-article-v1.json", by decide, not_not.mpr rfl, not_not.mpr rfl⟩
  obtain ⟨m, hrun, htaken, -⟩ := MemoryStore.persist_of_fits fits ⟨0, 0⟩
  have hkept : (memory .empty).keepAll [(⟨0, 0⟩, .persist article)] = memory m :=
    congrArg Prod.snd hrun
  have hnumbered := numbered_of_keepAll hcalls hkept (by decide)
  have hp : m.readMetadata article.contentKey = .ok (article.artifact ⟨0, 0⟩) := by
    have read := MemoryStore.readMetadata_of_run hshown (hcalls _ List.mem_cons_self).2 hrun
    exact (read _ _).mpr (.inl ⟨rfl, rfl⟩)
  have others (key : String) (hcontent : key ≠ article.contentKey)
      (hside : key ≠ "seo/metadata/exec-1-article-v1.json") : ¬ m.Taken key := by
    rw [htaken, ArtifactDraft.takenWith]
    rintro (hempty | hkey | hkey)
    · exact hempty rfl
    · exact hcontent hkey
    · have own : article.metadataKey? = some "seo/metadata/exec-1-article-v1.json" := by decide
      exact hside (Option.some_inj.mp (own.symm.trans hkey)).symm
  have hfree : Free (memory m) (article.artifact ⟨0, 0⟩) 2 := by
    have hside : ArtifactKey.side? ((versionKey (article.artifact ⟨0, 0⟩) 2).contentKey .draft) =
        some "seo/metadata/exec-1-article-v2.json" := by decide
    have free := others "seo/metadata/exec-1-article-v2.json" (by decide) (by decide)
    refine ⟨(versionKey (article.artifact ⟨0, 0⟩) 2).contentKey .draft, ?_⟩
    change m.readMetadata _ = _
    rw [MemoryStore.readMetadata_eq, hside]
    dsimp only
    rw [not_not.mp free]
  have hside : ArtifactKey.side? ((versionKey (article.artifact ⟨0, 0⟩) 2).contentKey .published) =
      some "seo/metadata/exec-1-article-v2.json" := by decide
  obtain ⟨a, m', hstored⟩ := run_store_of_free (m := m)
    (v := .ofParent (article.artifact ⟨0, 0⟩) 2 "# Final" .published) hside
    (others _ (by decide) (by decide)) (others _ (by decide) (by decide)) ⟨0, 0⟩
  have parent : (memory m).readMetadata article.contentKey = .ok (article.artifact ⟨0, 0⟩) := hp
  have hrefined := (run_refine_of_free parent hfree "# Final" .published).trans hstored
  have hplain : Plain (⟨0, 0⟩, .refine article.contentKey "# Final" .published) :=
    ⟨hshown, (by decide : "# Final".toUTF8.size < 0x1_0000_0000_0000_0000)⟩
  obtain ⟨p, m'', hm'', hread, hsucceeds⟩ := (provenance_sound hcalls hkept hnumbered).2
    ⟨0, 0⟩ article.contentKey "# Final" .published a (memory m') hplain hrefined
  cases hm''
  exact ⟨m, hcalls, hkept, hnumbered, a, p, m', hrefined, hread, hsucceeds⟩

end ArtifactStore

end PlaybookEngine
