import PlaybookEngine.Proofs.Activity.Shown
import PlaybookEngine.Proofs.Artifact.Disk
import PlaybookEngine.Proofs.Artifact.Walk

namespace PlaybookEngine

namespace Disk

open StoragePath Component

variable {α β : Type} {root key path : String}

/-- The path is the root with names behind it, at least one. -/
def Below (root path : String) : Prop :=
  ∃ p : Path, p ≠ [] ∧ (∀ name ∈ p, FileStore.Ordinary name) ∧
    ofPath path = ofPath root ++ p.map .name

/-- Every path that is asked for lies below the root, with any replies. -/
def Stays (root : String) (a : Activity Disk α) : Prop :=
  a.Abides (fun r : FileRequest => ∀ path, r.path? = some path → Below root path) fun _ => True

/-- A key is invalid, here and in the store, or its path is below the root. -/
theorem pathFor_below (root key : String) :
    (pathFor root key = .error (.invalidKey key) ∧
      FileStore.path key = .error (.invalidKey key)) ∨
    ∃ path p, pathFor root key = .ok path ∧ FileStore.path key = .ok p ∧ p ≠ [] ∧
      (∀ name ∈ p, FileStore.Ordinary name) ∧ ofPath path = ofPath root ++ p.map .name := by
  by_cases hsafe : isSafe key.toList = true
  · have hpath := FileStore.path_eq_ok_iff.mpr ⟨hsafe, rfl⟩
    obtain ⟨hne, hnames⟩ := FileStore.ordinary_of_path hpath
    obtain ⟨hfor, hcomponents⟩ := FileStore.pathFor_of_path hpath root
    exact .inr ⟨_, _, hfor, hpath, hne, hnames, hcomponents⟩
  · exact .inl ⟨if_neg hsafe, FileStore.path_eq_error hsafe⟩

theorem below_of_pathFor (h : pathFor root key = .ok path) : Below root path := by
  rcases pathFor_below root key with ⟨hfor, -⟩ | ⟨path', p, hfor, -, hbelow⟩
  · rw [hfor] at h
    cases h
  · obtain rfl := Except.ok.inj (hfor.symm.trans h)
    exact ⟨p, hbelow⟩

theorem stays_pure (a : α) : Stays root (pure a) := trivial

theorem stays_bind {a : Activity Disk α} {f : α → Activity Disk β} (ha : Stays root a)
    (hf : ∀ x, Stays root (f x)) : Stays root (a >>= f) :=
  Activity.abides_bind.mpr (ha.mono fun x _ => hf x)

theorem stays_send {r : FileRequest} (h : ∀ path, r.path? = some path → Below root path) :
    Stays root (send r) :=
  ⟨h, fun _ => trivial⟩

theorem stays_send_of_below {r : FileRequest} (h : Below root path) (hr : r.path? = some path) :
    Stays root (send r) :=
  stays_send fun _ hpath => Option.some_inj.mp (hr.symm.trans hpath) ▸ h

theorem stays_withPath {next : String → Activity Disk (Except StorageError α)}
    (h : ∀ path, Below root path → Stays root (next path)) :
    Stays root (withPath root key next) := by
  unfold withPath
  split
  · exact stays_pure _
  · rename_i hpath
    exact h _ (below_of_pathFor hpath)

theorem stays_create (root key : String) (bytes : ByteArray) :
    Stays root (create root key bytes) := by
  refine stays_withPath fun path hpath => ?_
  refine stays_bind (stays_send_of_below hpath rfl) fun way => ?_
  rcases way with _ | _
  · exact stays_pure _
  · refine stays_bind (stays_send_of_below hpath rfl) fun made => ?_
    rcases made with (_ | _ | _) | _
    · exact stays_pure _
    · exact stays_pure _
    · exact stays_pure _
    · refine stays_bind (stays_send_of_below hpath rfl) fun filled => ?_
      rcases filled with _ | _
      · exact stays_bind (stays_send_of_below hpath rfl) fun _ => stays_pure _
      · exact stays_pure _

theorem stays_read (root key : String) : Stays root (read root key) := by
  refine stays_withPath fun path hpath => ?_
  refine stays_bind (stays_send_of_below hpath rfl) fun found => ?_
  rcases found with (_ | _ | _) | _ <;> exact stays_pure _

theorem stays_readMetadata (root key : String) : Stays root (readMetadata root key) := by
  unfold readMetadata
  split
  · exact stays_pure _
  · refine stays_bind (stays_read root _) fun found => ?_
    rcases found with e | bytes
    · cases e <;> exact stays_pure _
    · exact stays_pure _

theorem stays_contains (root key : String) : Stays root (contains root key) := by
  refine stays_withPath fun path hpath => ?_
  refine stays_bind (stays_send_of_below hpath rfl) fun found => ?_
  rcases found with _ | _ <;> exact stays_pure _

theorem stays_remove (root key : String) : Stays root (remove root key) := by
  unfold remove
  split
  · exact stays_pure _
  · refine stays_withPath fun path hpath => ?_
    refine stays_bind (stays_send_of_below hpath rfl) fun removed => ?_
    rcases removed with (_ | _ | _) | _ <;> exact stays_pure _

theorem stays_perform (root : String) (r : StoreRequest) : Stays root (perform root r) := by
  cases r with
  | writeArtifact key content status =>
    exact stays_bind (stays_create root _ content) fun _ => stays_pure _
  | readArtifact key =>
    rw [perform]
    split
    · exact stays_pure _
    · exact stays_read root key
  | writeMetadata a =>
    rw [perform]
    split
    · exact stays_pure _
    · exact stays_create root _ _
  | readMetadata key => exact stays_readMetadata root key
  | contains key => exact stays_contains root key
  | removeArtifact key => exact stays_remove root key

/-- Whoever works with the store reaches the file system only through it. -/
theorem stays_carryOut (root : String) (a : Activity Storage α) : Stays root (carryOut root a) := by
  induction a with
  | done a => exact stays_pure a
  | ask r next ih =>
    cases r with
    | now => exact stays_bind (stays_send nofun) ih
    | store r => exact stays_bind (stays_perform root r) ih

end Disk

namespace Artifact

/-- Following the links from a key, artifact by artifact, as work with a store. -/
def trace : (left : Nat) → (visited : List String) → (key : String) →
    Activity Storage (Except StorageError (List Artifact))
  | left, visited, key =>
    if visited.contains key then return .error (.lineageCycle key)
    else do
      match ← Storage.readMetadata key with
      | .error e => return .error e
      | .ok a =>
        match a.derivedFrom with
        | none => return .ok [a]
        | some parent =>
          match left with
          | 0 => return .error (.lineageCycle parent)
          | left + 1 => return (← trace left (key :: visited) parent).map (a :: ·)

end Artifact

namespace ArtifactStore

open Artifact

/-- The store is only read, and the chain is that of its links. -/
theorem run_trace (now : Timestamp) (st : ArtifactStore) (left : Nat) (visited : List String)
    (key : String) :
    run now (trace left visited key) st = (lineageFrom st.readMetadata left visited key, st) := by
  rw [trace.eq_def]
  dsimp only
  by_cases hkey : key ∈ visited
  · rw [if_pos (List.contains_iff_mem.mpr hkey), lineageFrom_again hkey]
    rfl
  · rw [if_neg (by simpa using hkey), run_bind, run_readMetadata]
    rcases hread : st.readMetadata key with e | a
    · rw [lineageFrom_unread hkey hread]
      rfl
    · dsimp only
      cases hlink : a.derivedFrom with
      | none =>
        rw [lineageFrom_first hkey hread hlink]
        rfl
      | some parent =>
        cases left with
        | zero =>
          rw [lineageFrom_last hkey hread hlink]
          rfl
        | succ left =>
          dsimp only
          rw [lineageFrom_next hkey hread hlink, run_bind, run_trace now st left]
          rfl
termination_by left

end ArtifactStore

namespace Disk

open StoragePath Component FileTree

/-- On a tree that lies at the root, a lineage is traced by asking for files. -/
theorem lineage_eq_run (root key : String) (s : FileStore) (now : Instant) :
    (ArtifactStore.files s).lineage key =
      ((carryOut root (Artifact.trace (s.tree.files.length + 1) [] key)).run
        (surroundings root) now s.tree).1 := by
  have worked := run_carryOut now root (Artifact.trace (s.tree.files.length + 1) [] key) s
  rw [ArtifactStore.run_trace] at worked
  exact congrArg Prod.fst worked

/-- A key becomes a path only if that is the root with names behind it, and it does unless it is
empty, starts with a slash or at a point, or leads up. Whatever is asked of the store, and whatever
works with it, as keeping a draft, refining an artifact and tracing a lineage do, asks the file
system for paths below the root only, with any replies; and with a tree of files that lies at the
root this is what the store answers and what the work comes to. -/
theorem file_store_stays_below_root (root : String) :
    (∀ key, (pathFor root key = .error (.invalidKey key) ∧
        FileStore.path key = .error (.invalidKey key)) ∨
      ∃ path p, pathFor root key = .ok path ∧ FileStore.path key = .ok p ∧ p ≠ [] ∧
        (∀ name ∈ p, FileStore.Ordinary name) ∧ ofPath path = ofPath root ++ p.map .name) ∧
    (∀ key, pathFor root key = .error (.invalidKey key) ↔
      key = "" ∨ key.toList.head? = some '/' ∨ (ofPath key).head? = some .here ∨
        .up ∈ ofPath key) ∧
    (∀ r, Stays root (perform root r) ∧ ∀ (s : FileStore) now,
      (perform root r).run (surroundings root) now s.tree =
        ((s.answer r).1, now, (s.answer r).2.tree)) ∧
    (∀ (α : Type) (a : Activity Storage α), Stays root (carryOut root a) ∧ ∀ s (now : Instant),
      ArtifactStore.run (.ofNanos now) a (.files s) =
        (((carryOut root a).run (surroundings root) now s.tree).1,
          .files ⟨((carryOut root a).run (surroundings root) now s.tree).2.2⟩)) ∧
    ∀ key (s : FileStore) (now : Instant), (ArtifactStore.files s).lineage key =
      ((carryOut root (Artifact.trace (s.tree.files.length + 1) [] key)).run
        (surroundings root) now s.tree).1 := by
  refine ⟨pathFor_below root, fun key => ?_, fun r => ⟨stays_perform root r, fun s now => ?_⟩,
    fun α a => ⟨stays_carryOut root a, fun s now => run_carryOut now root a s⟩,
    lineage_eq_run root⟩
  · rw [← not_isSafe_iff, pathFor]
    by_cases hsafe : isSafe key.toList = true
    · simp [hsafe]
    · simp [hsafe]
  · exact run_perform now s root r

/-- Slashes on either side of a key, and points inside, are no components of their own. -/
example : pathFor "/data/store/" "seo//generated/./draft/a.md" =
      .ok "/data/store/seo//generated/./draft/a.md" ∧
    ofPath "/data/store/seo//generated/./draft/a.md" =
      [.root, .name "data", .name "store", .name "seo", .name "generated", .name "draft",
        .name "a.md"] := by
  decide +kernel

end Disk

end PlaybookEngine
