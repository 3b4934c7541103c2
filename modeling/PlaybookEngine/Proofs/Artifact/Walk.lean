import PlaybookEngine.Proofs.Artifact.Lineage
import PlaybookEngine.Proofs.Artifact.Places

namespace PlaybookEngine

namespace Artifact

/-- From the first key, the links of the artifacts at the keys on the way lead to the last one. -/
inductive Follows (read : String → Except StorageError Artifact) :
    String → List (String × Artifact) → String → Prop
  | here (key : String) : Follows read key [] key
  | next {key parent last : String} {a : Artifact} {way : List (String × Artifact)}
    (stored : read key = .ok a) (link : a.derivedFrom = some parent)
    (rest : Follows read parent way last) : Follows read key ((key, a) :: way) last

/-- The keys that a way passes before it comes to its last one. -/
def passed (way : List (String × Artifact)) : List String := way.map Prod.fst

/-- Before any key comes again, the links from the key come to an artifact without parent; `chain`
are the artifacts up to there. -/
def Arrives (read : String → Except StorageError Artifact) (key : String) (chain : List Artifact) :
    Prop :=
  ∃ way last a, Follows read key way last ∧ (passed way ++ [last]).Nodup ∧ read last = .ok a ∧
    a.derivedFrom = none ∧ chain = way.map Prod.snd ++ [a]

/-- The first key that comes again is `again`. -/
def Returns (read : String → Except StorageError Artifact) (key again : String) : Prop :=
  ∃ way, Follows read key way again ∧ (passed way).Nodup ∧ again ∈ passed way

/-- Before any key comes again, the links from the key come to one that cannot be read. -/
def Breaks (read : String → Except StorageError Artifact) (key : String) (e : StorageError) :
    Prop :=
  ∃ way last, Follows read key way last ∧ (passed way ++ [last]).Nodup ∧ read last = .error e

variable {read : String → Except StorageError Artifact} {key parent last : String} {a : Artifact}
  {way : List (String × Artifact)}

theorem once_concat :
    (passed way ++ [last]).Nodup ↔ last ∉ passed way ∧ (passed way).Nodup := by
  rw [← List.concat_eq_append, List.nodup_concat]

namespace Follows

theorem concat (h : Follows read key way last) (stored : read last = .ok a)
    (link : a.derivedFrom = some parent) : Follows read key (way ++ [(last, a)]) parent := by
  induction h with
  | here key => exact .next stored link (.here parent)
  | next hstored hlink _ ih => exact .next hstored hlink (ih stored)

/-- What is passed after the first key is told by links. -/
theorem linked (h : Follows read key way last) :
    ∀ k ∈ passed way, k = key ∨ ∃ j a, read j = .ok a ∧ a.derivedFrom = some k := by
  induction h with
  | here key => exact nofun
  | @next key parent last a way hstored hlink _ ih =>
    intro k hk
    rcases List.mem_cons.mp hk with rfl | hk
    · exact .inl rfl
    · rcases ih k hk with rfl | told
      · exact .inr ⟨key, a, hstored, hlink⟩
      · exact .inr told

end Follows

variable {left : Nat} {visited : List String}

theorem lineageFrom_again (hkey : key ∈ visited) :
    lineageFrom read left visited key = .error (.lineageCycle key) := by
  rw [lineageFrom.eq_def]
  exact if_pos (List.contains_iff_mem.mpr hkey)

theorem lineageFrom_unread {e : StorageError} (hkey : key ∉ visited) (hread : read key = .error e) :
    lineageFrom read left visited key = .error e := by
  rw [lineageFrom.eq_def]
  dsimp only
  rw [if_neg (by simpa using hkey), hread]
  rfl

theorem lineageFrom_last (hkey : key ∉ visited) (hread : read key = .ok a)
    (hlink : a.derivedFrom = some parent) :
    lineageFrom read 0 visited key = .error (.lineageCycle parent) := by
  rw [lineageFrom, if_neg (by simpa using hkey), hread]
  dsimp only [Bind.bind, Except.bind]
  rw [hlink]

/-- Whatever comes of the last key of a way comes of the first one, with what is on the way. -/
theorem lineageFrom_of_follows (h : Follows read key way last) (once : (passed way).Nodup)
    (fresh : ∀ k ∈ passed way, k ∉ visited) :
    lineageFrom read (left + way.length) visited key =
      (lineageFrom read left ((passed way).reverse ++ visited) last).map
        (way.map Prod.snd ++ ·) := by
  induction h generalizing visited with
  | here key =>
    change lineageFrom read left visited key = (lineageFrom read left visited key).map ([] ++ ·)
    cases lineageFrom read left visited key <;> rfl
  | @next key parent last a way hstored hlink rest ih =>
    obtain ⟨hnew, once⟩ := List.nodup_cons.mp once
    have fresh' : ∀ k ∈ passed way, k ∉ key :: visited := by
      intro k hk hmem
      rcases List.mem_cons.mp hmem with rfl | hmem
      · exact hnew hk
      · exact fresh k (List.mem_cons_of_mem _ hk) hmem
    have keys : (passed ((key, a) :: way)).reverse ++ visited =
        (passed way).reverse ++ key :: visited := by
      simp [passed]
    rw [keys, List.length_cons, ← Nat.add_assoc,
      lineageFrom_next (fresh key List.mem_cons_self) hstored hlink, ih once fresh']
    cases lineageFrom read left ((passed way).reverse ++ key :: visited) last <;> rfl

end Artifact

open Artifact

theorem FileStore.exists_file {f : FileStore} {key : String} {bytes : ByteArray}
    (h : f.read key = .ok bytes) : ∃ p, (p, bytes) ∈ f.tree.files := by
  rcases hpath : FileStore.path key with e | p
  · rw [FileStore.read, hpath] at h
    cases h
  · rw [f.read_of_path hpath] at h
    split at h
    · rename_i stored hfile
      cases h
      obtain ⟨found, hcontent⟩ :=
        Option.isSome_iff_exists.mp ((isFile_iff f.tree p).mpr ⟨bytes, hfile⟩)
      rw [FileTree.find_of_content? hcontent] at hfile
      cases hfile
      obtain ⟨front, back, hfiles, -⟩ := List.lookup_eq_some_iff.mp hcontent
      exact ⟨p, hfiles ▸ List.mem_append_right front List.mem_cons_self⟩
    all_goals cases h

theorem FileStore.read_ne_lineageCycle (f : FileStore) (key again : String) :
    f.read key ≠ .error (.lineageCycle again) := by
  intro h
  by_cases hsafe : StoragePath.isSafe key.toList = true
  · rw [f.read_of_path (path_eq_ok_iff.mpr ⟨hsafe, rfl⟩)] at h
    split at h <;> cases h
  · rw [FileStore.read, path_eq_error hsafe] at h
    cases h

namespace ArtifactStore

variable {s : ArtifactStore} {key last again : String} {way : List (String × Artifact)} {left : Nat}

def contents : ArtifactStore → List ByteArray
  | .memory m => m.entries.map Prod.snd
  | .files f => f.tree.files.map Prod.snd

theorem length_contents (s : ArtifactStore) : s.contents.length = s.size := by
  cases s <;> exact List.length_map ..

theorem readMetadata_files_eq (f : FileStore) (key : String) :
    (files f).readMetadata key =
      match ArtifactKey.side? key with
      | none => .error (.invalidKey key)
      | some side =>
        match f.read side with
        | .ok bytes => ofBytes bytes
        | .error (.notFound _) => .error (.notFound key)
        | .error e => .error e := by
  change f.readMetadata key = _
  rw [FileStore.readMetadata, ArtifactKey.read, ArtifactKey.side?]
  cases ArtifactKey.ofContentKey? key <;> rfl

theorem exists_entry {a : Artifact} (h : s.readMetadata key = .ok a) :
    ∃ bytes ∈ s.contents, ofBytes bytes = .ok a := by
  cases s with
  | memory m =>
    obtain ⟨side, bytes, -, hbytes, hdecoded⟩ := MemoryStore.readMetadata_eq_ok.mp h
    exact ⟨bytes, List.mem_map.mpr ⟨(side, bytes), Fields.mem_of_get? hbytes, rfl⟩, hdecoded⟩
  | files f =>
    rw [readMetadata_files_eq] at h
    split at h
    · cases h
    · split at h
      · rename_i bytes hread
        obtain ⟨p, hentry⟩ := FileStore.exists_file hread
        exact ⟨bytes, List.mem_map.mpr ⟨(p, bytes), hentry, rfl⟩, h⟩
      · cases h
      · cases h

def links (s : ArtifactStore) : List String :=
  s.contents.filterMap fun bytes => (ofBytes bytes).toOption.bind (·.derivedFrom)

theorem length_links_le (s : ArtifactStore) : s.links.length ≤ s.size := by
  rw [← length_contents]
  exact List.length_filterMap_le ..

theorem mem_links {a : Artifact} {parent : String} (h : s.readMetadata key = .ok a)
    (hlink : a.derivedFrom = some parent) : parent ∈ s.links := by
  obtain ⟨bytes, hbytes, hdecoded⟩ := exists_entry h
  refine List.mem_filterMap.mpr ⟨bytes, hbytes, ?_⟩
  rw [hdecoded]
  exact hlink

/-- A way that passes no key twice has one key, and then no more than there are entries. -/
theorem length_le_of_follows (h : Follows s.readMetadata key way last)
    (once : (passed way).Nodup) : way.length ≤ s.size + 1 := by
  have told : passed way ⊆ key :: s.links := by
    intro k hk
    rcases h.linked k hk with rfl | ⟨j, a, hstored, hlink⟩
    · exact List.mem_cons_self
    · exact List.mem_cons_of_mem _ (mem_links hstored hlink)
  have le := (once.subperm told).length_le
  rw [passed, List.length_map, List.length_cons] at le
  exact le.trans (Nat.succ_le_succ s.length_links_le)

/-- A way goes on until it comes to a key that it has passed, or to one that links no further. -/
theorem exists_stop (h : Follows s.readMetadata key way last) (once : (passed way).Nodup) :
    ∃ way last, Follows s.readMetadata key way last ∧ (passed way).Nodup ∧
      (last ∉ passed way → ∀ a, s.readMetadata last = .ok a → a.derivedFrom = none) := by
  -- Each link makes the way longer, and no way is longer than the bound.
  induction hn : s.size + 1 - way.length using Nat.strong_induction_on generalizing way last with
  | _ n ih =>
    by_cases stops : last ∉ passed way → ∀ a, s.readMetadata last = .ok a → a.derivedFrom = none
    · exact ⟨way, last, h, once, stops⟩
    · push Not at stops
      obtain ⟨hlast, a, ha, hlink⟩ := stops
      obtain ⟨parent, hparent⟩ := Option.ne_none_iff_exists'.mp hlink
      have longer := h.concat ha hparent
      have once' : (passed (way ++ [(last, a)])).Nodup := by
        rw [passed, List.map_append]
        exact once_concat.mpr ⟨hlast, once⟩
      have bound := length_le_of_follows longer once'
      rw [List.length_append, List.length_singleton] at bound
      refine ih _ ?_ longer once' rfl
      rw [List.length_append, List.length_singleton]
      omega

/-- The links from a key come to an artifact without parent, to a key where they have been, or to
one that cannot be read. -/
theorem exists_end (s : ArtifactStore) (key : String) :
    (∃ chain, Arrives s.readMetadata key chain) ∨ (∃ again, Returns s.readMetadata key again) ∨
      ∃ e, Breaks s.readMetadata key e := by
  obtain ⟨way, last, hway, once, stops⟩ := exists_stop (s := s) (.here key) List.nodup_nil
  by_cases hlast : last ∈ passed way
  · exact .inr (.inl ⟨last, way, hway, once, hlast⟩)
  · have once' := once_concat.mpr ⟨hlast, once⟩
    rcases hread : s.readMetadata last with e | a
    · exact .inr (.inr ⟨e, way, last, hway, once', hread⟩)
    · exact .inl ⟨_, way, last, a, hway, once', hread, stops hlast a hread, rfl⟩

/-- With enough steps, what comes of a key is what comes of the last key on a way from it. -/
theorem lineageFrom_eq_last (h : Follows s.readMetadata key way last) (once : (passed way).Nodup)
    (hleft : s.size < left) :
    ∃ rest, lineageFrom s.readMetadata left [] key =
      (lineageFrom s.readMetadata rest (passed way).reverse last).map (way.map Prod.snd ++ ·) := by
  have bound := length_le_of_follows h once
  obtain ⟨rest, rfl⟩ : ∃ rest, left = rest + way.length := Nat.exists_eq_add_of_le' (by omega)
  refine ⟨rest, ?_⟩
  rw [lineageFrom_of_follows h once fun k _ => List.not_mem_nil, List.append_nil]

theorem lineageFrom_of_arrives {chain : List Artifact} (h : Arrives s.readMetadata key chain)
    (hleft : s.size < left) : lineageFrom s.readMetadata left [] key = .ok chain := by
  obtain ⟨way, last, a, hway, once, hread, hroot, rfl⟩ := h
  obtain ⟨hlast, once⟩ := once_concat.mp once
  obtain ⟨rest, run⟩ := lineageFrom_eq_last hway once hleft
  rw [run, lineageFrom_first (by simpa using hlast) hread hroot]
  rfl

theorem lineageFrom_of_returns (h : Returns s.readMetadata key again) (hleft : s.size < left) :
    lineageFrom s.readMetadata left [] key = .error (.lineageCycle again) := by
  obtain ⟨way, hway, once, hmet⟩ := h
  obtain ⟨rest, run⟩ := lineageFrom_eq_last hway once hleft
  rw [run, lineageFrom_again (by simpa using hmet)]
  rfl

theorem lineageFrom_of_breaks {e : StorageError} (h : Breaks s.readMetadata key e)
    (hleft : s.size < left) : lineageFrom s.readMetadata left [] key = .error e := by
  obtain ⟨way, last, hway, once, hread⟩ := h
  obtain ⟨hlast, once⟩ := once_concat.mp once
  obtain ⟨rest, run⟩ := lineageFrom_eq_last hway once hleft
  rw [run, lineageFrom_unread (by simpa using hlast) hread]
  rfl

theorem lineageFrom_cases (s : ArtifactStore) (key : String) (hleft : s.size < left) :
    (∃ chain, Arrives s.readMetadata key chain ∧
      lineageFrom s.readMetadata left [] key = .ok chain) ∨
    (∃ again, Returns s.readMetadata key again ∧
      lineageFrom s.readMetadata left [] key = .error (.lineageCycle again)) ∨
    ∃ e, Breaks s.readMetadata key e ∧ lineageFrom s.readMetadata left [] key = .error e := by
  rcases s.exists_end key with ⟨chain, h⟩ | ⟨again, h⟩ | ⟨e, h⟩
  · exact .inl ⟨chain, h, lineageFrom_of_arrives h hleft⟩
  · exact .inr (.inl ⟨again, h, lineageFrom_of_returns h hleft⟩)
  · exact .inr (.inr ⟨e, h, lineageFrom_of_breaks h hleft⟩)

theorem readMetadata_ne_lineageCycle (s : ArtifactStore) (key again : String) :
    s.readMetadata key ≠ .error (.lineageCycle again) := by
  have decoded (bytes : ByteArray) : ofBytes bytes ≠ .error (.lineageCycle again) := by
    intro h
    rw [ofBytes] at h
    split at h
    · cases h
    · cases h
  cases s with
  | memory m =>
    change m.readMetadata key ≠ .error (.lineageCycle again)
    intro h
    rw [MemoryStore.readMetadata_eq] at h
    split at h
    · cases h
    · split at h
      · exact decoded _ h
      · cases h
  | files f =>
    intro h
    rw [readMetadata_files_eq] at h
    split at h
    · cases h
    · rename_i side _
      rcases hread : f.read side with e | bytes
      · rw [hread] at h
        cases e with
        | lineageCycle other => exact f.read_ne_lineageCycle side other hread
        | _ => cases h
      · rw [hread] at h
        exact decoded bytes h

theorem lineageFrom_eq_ok_iff {chain : List Artifact} (hleft : s.size < left) :
    lineageFrom s.readMetadata left [] key = .ok chain ↔ Arrives s.readMetadata key chain := by
  constructor
  · intro h
    rcases s.lineageFrom_cases key hleft with
      ⟨chain', hend, hx⟩ | ⟨again, hend, hx⟩ | ⟨e, hend, hx⟩
    all_goals cases h.symm.trans hx
    exact hend
  · exact fun h => lineageFrom_of_arrives h hleft

theorem lineageFrom_eq_cycle_iff (hleft : s.size < left) :
    lineageFrom s.readMetadata left [] key = .error (.lineageCycle again) ↔
      Returns s.readMetadata key again := by
  constructor
  · intro h
    rcases s.lineageFrom_cases key hleft with
      ⟨chain, hend, hx⟩ | ⟨again', hend, hx⟩ | ⟨e, ⟨way, last, -, -, hread⟩, hx⟩
    all_goals cases h.symm.trans hx
    · exact hend
    · exact absurd hread (s.readMetadata_ne_lineageCycle last again)
  · exact fun h => lineageFrom_of_returns h hleft

theorem lineageFrom_eq_error_iff {e : StorageError} (hleft : s.size < left) :
    lineageFrom s.readMetadata left [] key = .error e ↔ Breaks s.readMetadata key e ∨
      ∃ again, e = .lineageCycle again ∧ Returns s.readMetadata key again := by
  constructor
  · intro h
    rcases s.lineageFrom_cases key hleft with
      ⟨chain, hend, hx⟩ | ⟨again, hend, hx⟩ | ⟨e', hend, hx⟩
    all_goals cases h.symm.trans hx
    · exact .inr ⟨again, rfl, hend⟩
    · exact .inl hend
  · rintro (hbreaks | ⟨again, rfl, hreturns⟩)
    · exact lineageFrom_of_breaks hbreaks hleft
    · exact lineageFrom_of_returns hreturns hleft

/-- More steps than there are entries make no difference. -/
theorem lineageFrom_congr {left' : Nat} (hleft : s.size < left) (hleft' : s.size < left') :
    lineageFrom s.readMetadata left [] key = lineageFrom s.readMetadata left' [] key := by
  rcases s.exists_end key with ⟨chain, hend⟩ | ⟨again, hend⟩ | ⟨e, hend⟩
  · rw [lineageFrom_of_arrives hend hleft, lineageFrom_of_arrives hend hleft']
  · rw [lineageFrom_of_returns hend hleft, lineageFrom_of_returns hend hleft']
  · rw [lineageFrom_of_breaks hend hleft, lineageFrom_of_breaks hend hleft']

/-- The links from a key decide its lineage, in every store: the artifacts up to the first one
without parent, the first key that comes again, or the error of the first key that cannot be read.
The bound on the steps does not matter, for the links come to one of these within it. -/
theorem lineage_decided_by_links (s : ArtifactStore) (key : String) :
    (∀ chain, s.lineage key = .ok chain ↔ Arrives s.readMetadata key chain) ∧
    (∀ again, s.lineage key = .error (.lineageCycle again) ↔ Returns s.readMetadata key again) ∧
    (∀ e, s.lineage key = .error e ↔ Breaks s.readMetadata key e ∨
      ∃ again, e = .lineageCycle again ∧ Returns s.readMetadata key again) ∧
    ∀ more, lineageFrom s.readMetadata (s.size + 1 + more) [] key = s.lineage key := by
  have enough : s.size < s.size + 1 := Nat.lt_succ_self _
  refine ⟨fun chain => lineageFrom_eq_ok_iff enough, fun again => lineageFrom_eq_cycle_iff enough,
    fun e => lineageFrom_eq_error_iff enough, fun more => ?_⟩
  have still : s.size < s.size + 1 + more := by omega
  exact lineageFrom_congr still enough

end ArtifactStore

end PlaybookEngine
