import PlaybookEngine.Artifact.Provenance
import PlaybookEngine.Proofs.Activity.Run
import PlaybookEngine.Proofs.Artifact.Components

namespace PlaybookEngine

/-- Why a file system does not do what it is asked for. -/
inductive FileFault
  | missing
  | taken
  | refused
  deriving DecidableEq

inductive FileRequest
  | now
  /-- Makes the directories on the way to a path. -/
  | makeWay (path : String)
  /-- Makes a new file with nothing in it. -/
  | create (path : String)
  /-- Writes into the file that has been made. -/
  | fill (path : String) (bytes : ByteArray)
  | read (path : String)
  | test (path : String)
  | remove (path : String)

namespace FileRequest

def Reply : FileRequest → Type
  | .now => Timestamp
  | .makeWay _ => Except FileFault Unit
  | .create _ => Except FileFault Unit
  | .fill _ _ => Except FileFault Unit
  | .read _ => Except FileFault ByteArray
  | .test _ => Except FileFault Bool
  | .remove _ => Except FileFault Unit

/-- The path that is asked for. -/
def path? : FileRequest → Option String
  | .now => none
  | .makeWay path => some path
  | .create path => some path
  | .fill path _ => some path
  | .read path => some path
  | .test path => some path
  | .remove path => some path

end FileRequest

def Disk : Interface := ⟨FileRequest, FileRequest.Reply⟩

namespace Disk

open StoragePath

variable {α β : Type}

def send (r : FileRequest) : Activity Disk r.Reply := Activity.request (I := Disk) r

/-- Goes on with the path of a key, if it has one. -/
def withPath (root key : String) (next : String → Activity Disk (Except StorageError α)) :
    Activity Disk (Except StorageError α) :=
  match pathFor root key with
  | .error e => return .error e
  | .ok path => next path

/-- Writes a new file. When the bytes cannot be written, the file goes again. -/
def create (root key : String) (bytes : ByteArray) : Activity Disk (Except StorageError Unit) :=
  withPath root key fun path => do
    match ← send (.makeWay path) with
    | .error _ => return .error (.io key)
    | .ok () =>
      match ← send (.create path) with
      | .error .taken => return .error (.alreadyExists key)
      | .error _ => return .error (.io key)
      | .ok () =>
        match ← send (.fill path bytes) with
        | .ok () => return .ok ()
        | .error _ =>
          let _ ← send (.remove path)
          return .error (.io key)

/-- Writes content, and answers with its key. -/
def write (root key : String) (bytes : ByteArray) : Activity Disk (Except StorageError String) := do
  return (← create root key bytes).map fun _ => key

def read (root key : String) : Activity Disk (Except StorageError ByteArray) :=
  withPath root key fun path => do
    match ← send (.read path) with
    | .ok bytes => return .ok bytes
    | .error .missing => return .error (.notFound key)
    | .error _ => return .error (.io key)

def readMetadata (root key : String) : Activity Disk (Except StorageError Artifact) :=
  match ArtifactKey.read key with
  | .error e => return .error e
  | .ok (k, _) => do
    match ← read root k.metadataKey with
    | .ok bytes => return Artifact.ofBytes bytes
    | .error (.notFound _) => return .error (.notFound key)
    | .error e => return .error e

def contains (root key : String) : Activity Disk (Except StorageError Bool) :=
  withPath root key fun path => do
    match ← send (.test path) with
    | .ok found => return .ok found
    | .error _ => return .error (.io key)

def remove (root key : String) : Activity Disk (Except StorageError Unit) :=
  match ArtifactKey.read key with
  | .error e => return .error e
  | .ok _ => withPath root key fun path => do
    match ← send (.remove path) with
    | .ok () => return .ok ()
    | .error .missing => return .ok ()
    | .error _ => return .error (.io key)

/-- What a store of files below the root does for a request. -/
def perform (root : String) : (r : StoreRequest) → Activity Disk r.Reply
  | .writeArtifact key content status => write root (key.contentKey status) content
  | .readArtifact key =>
    match ArtifactKey.read key with
    | .error e => return .error e
    | .ok _ => read root key
  | .writeMetadata a =>
    match ArtifactKey.read a.storageKey with
    | .error e => return .error e
    | .ok (k, _) => create root k.metadataKey a.encode.pretty.toUTF8
  | .readMetadata key => readMetadata root key
  | .contains key => contains root key
  | .removeArtifact key => remove root key

/-- Work with a store, done by a store of files below the root. -/
def carryOut (root : String) : Activity Storage α → Activity Disk α
  | .done a => .done a
  | .ask .now next => send .now >>= fun now => carryOut root (next now)
  | .ask (.store r) next => perform root r >>= fun x => carryOut root (next x)

end Disk

namespace Component

def name? : Component → Option String
  | .name text => some text
  | _ => none

/-- The names in a path behind a root; none unless the path is below the root. -/
def below? (root path : String) : Option Path :=
  if ofPath root <+: ofPath path then
    ((ofPath path).drop (ofPath root).length).mapM name?
  else none

theorem mapM_name? (p : Path) : (p.map name).mapM name? = some p := by
  induction p with
  | nil => rfl
  | cons text rest ih =>
    rw [List.map_cons, List.mapM_cons, ih]
    rfl

theorem below?_of_ofPath {root path : String} {p : Path}
    (h : ofPath path = ofPath root ++ p.map .name) : below? root path = some p := by
  rw [below?, h, if_pos (List.prefix_append _ _), List.drop_left]
  exact mapM_name? p

end Component

namespace FileTree

open FileStore (namesDirectory endsInPoint)

/-- What the tree makes of a request for a path below the root at which it lies. -/
def within {α : Type} (root path : String) (t : FileTree)
    (f : Path → Except FileFault α × FileTree) : Except FileFault α × FileTree :=
  match Component.below? root path with
  | none => (.error .refused, t)
  | some p => f p

/-- What a tree of files that lies at the root answers to a request. -/
def respond (root : String) (now : Timestamp) (t : FileTree) :
    (r : FileRequest) → r.Reply × FileTree
  | .now => (now, t)
  | .makeWay path => t.within root path fun p =>
    match t.addDirectories (Path.ancestors p) with
    | none => (.error .refused, t)
    | some t' => (.ok (), t')
  | .create path => t.within root path fun p =>
    if namesDirectory path then
      (.error (if endsInPoint path && t.isDirectory p then .taken else .refused), t)
    else
      match t.find p with
      | .file _ => (.error .taken, t)
      | .directory => (.error .taken, t)
      | .blocked => (.error .refused, t)
      | .missing => (.ok (), t.put p .empty)
  | .fill path bytes => t.within root path fun p => (.ok (), t.put p bytes)
  | .read path => t.within root path fun p =>
    match t.find p with
    | .file bytes => (.ok bytes, t)
    | .missing => (.error .missing, t)
    | .directory => (.error .refused, t)
    | .blocked => (.error .refused, t)
  | .test path => t.within root path fun p =>
    match t.find p with
    | .file _ => if namesDirectory path then (.error .refused, t) else (.ok true, t)
    | .directory => (.ok true, t)
    | .missing => (.ok false, t)
    | .blocked => (.error .refused, t)
  | .remove path => t.within root path fun p =>
    match t.find p with
    | .file _ => (.ok (), t.remove p)
    | .missing => (.error .missing, t)
    | .directory => (.error .refused, t)
    | .blocked => (.error .refused, t)

/-- The surroundings of work on a disk: a tree of files that lies at the root. -/
def surroundings (root : String) : Surroundings Disk FileTree := fun now r t =>
  ⟨(t.respond root (.ofNanos now) r).1, none, (t.respond root (.ofNanos now) r).2⟩

/-- A file that has been made and then filled. -/
theorem put_put (t : FileTree) (p : Path) (bytes bytes' : ByteArray) :
    (t.put p bytes).put p bytes' = t.put p bytes' := by
  simp [put, List.filter_filter]
  exact fun a ha hnew => ⟨ha, hnew⟩

end FileTree

namespace FileStore

variable {key : String} {p : Path} (s : FileStore)

theorem contains_of_path (h : FileStore.path key = .ok p) :
    s.contains key = match s.tree.find p with
      | .file _ => if namesDirectory key then .error (.io key) else .ok true
      | .directory => .ok true
      | .missing => .ok false
      | .blocked => .error (.io key) := by
  rw [contains, h]
  rfl

end FileStore

namespace Disk

open StoragePath FileTree

variable {α β : Type} {root key path : String} {p : Path} (now : Instant) (s : FileStore)

/-- Behind a root stands the key, if anything with a slash in front of it. -/
theorem toList_joined (root key : String) :
    (joined root key).toList = key.toList ∨
      ∃ front, (joined root key).toList = front ++ '/' :: key.toList := by
  unfold joined
  split
  · exact .inl rfl
  · split
    · rename_i hend
      rcases hend with rfl | hend
      · exact .inl (congrArg String.toList (String.empty_append))
      · obtain ⟨front, hroot⟩ := List.getLast?_eq_some_iff.mp hend
        refine .inr ⟨front, ?_⟩
        rw [String.toList_append, hroot, List.append_assoc]
        rfl
    · refine .inr ⟨root.toList, ?_⟩
      rw [String.toList_append, String.toList_append, List.append_assoc]
      rfl

/-- Joined to a root, a safe key ends as it does by itself. -/
theorem ends_joined (h : isSafe key.toList = true) (root : String) :
    FileStore.endsInPoint (joined root key) = FileStore.endsInPoint key ∧
      FileStore.namesDirectory (joined root key) = FileStore.namesDirectory key := by
  obtain ⟨first, rest, hparts, hempty, -, -⟩ := isSafe_iff_parts.mp h
  have parts : (Text.splitOn '/' key.toList).filter (· ≠ []) ≠ [] := by
    rw [hparts, List.filter_cons_of_pos (by simpa using hempty)]
    exact List.cons_ne_nil _ _
  have nonempty : key.toList ≠ [] := by
    intro hnil
    rw [hnil] at h
    cases h
  unfold FileStore.namesDirectory FileStore.endsInPoint
  rcases toList_joined root key with hsame | ⟨front, hjoined⟩
  · rw [hsame]
    exact ⟨rfl, rfl⟩
  · rw [hjoined, Text.splitOn_append_cons, List.filter_append,
      List.getLast?_append_of_ne_nil _ parts, List.append_cons,
      List.getLast?_append_of_ne_nil _ nonempty]
    exact ⟨rfl, rfl⟩

/-- A key without path in the store has none below the root, and else they are the same place. -/
theorem pathFor_cases (root key : String) :
    (FileStore.path key = .error (.invalidKey key) ∧
      pathFor root key = .error (.invalidKey key)) ∨
    ∃ p path, FileStore.path key = .ok p ∧ pathFor root key = .ok path ∧
      Component.below? root path = some p ∧
      FileStore.endsInPoint path = FileStore.endsInPoint key ∧
      FileStore.namesDirectory path = FileStore.namesDirectory key := by
  by_cases hsafe : isSafe key.toList = true
  · have hpath := FileStore.path_eq_ok_iff.mpr ⟨hsafe, rfl⟩
    obtain ⟨hfor, hcomponents⟩ := FileStore.pathFor_of_path hpath root
    exact .inr ⟨_, _, hpath, hfor, Component.below?_of_ofPath hcomponents,
      ends_joined hsafe root⟩
  · exact .inl ⟨FileStore.path_eq_error hsafe, if_neg hsafe⟩

theorem run_send (r : FileRequest) (t : FileTree) :
    (send r).run (surroundings root) now t =
      ((t.respond root (.ofNanos now) r).1, now, (t.respond root (.ofNanos now) r).2) := rfl

theorem run_create (root key : String) (bytes : ByteArray) :
    (create root key bytes).run (surroundings root) now s.tree =
      ((s.create key bytes).1, now, (s.create key bytes).2.tree) := by
  rcases pathFor_cases root key with ⟨hpath, hfor⟩ | ⟨p, path, hpath, hfor, hbelow, hend⟩
  · simp [create, withPath, hfor, FileStore.create, hpath]
  · rw [create, withPath, hfor, FileStore.create, hpath]
    simp only [Activity.run_bind, run_send, respond, within, hbelow]
    cases s.tree.addDirectories (Path.ancestors p) with
    | none => rfl
    | some t =>
      simp only [Activity.run_bind, run_send, respond, within, hbelow, hend.1, hend.2]
      by_cases hdirectory : FileStore.namesDirectory key = true
      · rw [if_pos hdirectory, if_pos hdirectory, FileStore.refusal]
        cases FileStore.endsInPoint key && t.isDirectory p <;> rfl
      · rw [if_neg hdirectory, if_neg hdirectory]
        cases t.find p with
        | missing => simp [Activity.run_bind, run_send, respond, within, hbelow, put_put]
        | _ => rfl

theorem run_write (root key : String) (bytes : ByteArray) :
    (write root key bytes).run (surroundings root) now s.tree =
      ((s.create key bytes).1.map fun _ => key, now, (s.create key bytes).2.tree) := by
  rw [write, Activity.run_bind, run_create]
  rfl

theorem run_read (root key : String) :
    (read root key).run (surroundings root) now s.tree = (s.read key, now, s.tree) := by
  rcases pathFor_cases root key with ⟨hpath, hfor⟩ | ⟨p, path, hpath, hfor, hbelow, -⟩
  · rw [read, withPath, hfor, FileStore.read, hpath]
    rfl
  · rw [read, withPath, hfor, s.read_of_path hpath]
    simp only [Activity.run_bind, run_send, respond, within, hbelow]
    cases s.tree.find p <;> rfl

theorem run_readMetadata (root key : String) :
    (readMetadata root key).run (surroundings root) now s.tree =
      (s.readMetadata key, now, s.tree) := by
  rw [readMetadata, FileStore.readMetadata]
  rcases ArtifactKey.read key with e | ⟨k, status⟩
  · rfl
  · change _ = (match s.read k.metadataKey with
      | .ok bytes => Artifact.ofBytes bytes
      | .error (.notFound _) => .error (.notFound key)
      | .error e => .error e, now, s.tree)
    simp only [Activity.run_bind, run_read]
    rcases s.read k.metadataKey with e | bytes
    · cases e <;> rfl
    · rfl

theorem run_contains (root key : String) :
    (contains root key).run (surroundings root) now s.tree = (s.contains key, now, s.tree) := by
  rcases pathFor_cases root key with ⟨hpath, hfor⟩ | ⟨p, path, hpath, hfor, hbelow, hend⟩
  · rw [contains, withPath, hfor, FileStore.contains, hpath]
    rfl
  · rw [contains, withPath, hfor, s.contains_of_path hpath]
    simp only [Activity.run_bind, run_send, respond, within, hbelow, hend.2]
    cases s.tree.find p with
    | file bytes =>
      dsimp only
      by_cases hdirectory : FileStore.namesDirectory key = true
      · rw [if_pos hdirectory, if_pos hdirectory]
        rfl
      · rw [if_neg hdirectory, if_neg hdirectory]
        rfl
    | _ => rfl

theorem run_remove (root key : String) :
    (remove root key).run (surroundings root) now s.tree =
      ((s.remove key).1, now, (s.remove key).2.tree) := by
  rw [remove, FileStore.remove]
  cases ArtifactKey.read key with
  | error e => rfl
  | ok k =>
    rcases pathFor_cases root key with ⟨hpath, hfor⟩ | ⟨p, path, hpath, hfor, hbelow, -⟩
    · dsimp only
      rw [withPath, hfor, hpath]
      rfl
    · dsimp only
      rw [withPath, hfor, hpath]
      simp only [Activity.run_bind, run_send, respond, within, hbelow]
      cases s.tree.find p <;> rfl

/-- On a tree that lies at the root, a request comes to the answer of the store. -/
theorem run_perform (root : String) (r : StoreRequest) :
    (perform root r).run (surroundings root) now s.tree =
      ((s.answer r).1, now, (s.answer r).2.tree) := by
  cases r with
  | writeArtifact key content status =>
    exact run_write now s root (key.contentKey status) content
  | readArtifact key =>
    rw [perform, FileStore.answer, FileStore.readArtifact]
    cases ArtifactKey.read key with
    | error e => rfl
    | ok k => exact run_read now s root key
  | writeMetadata a =>
    rw [perform, FileStore.answer]
    cases ArtifactKey.read a.storageKey with
    | error e => rfl
    | ok k => exact run_create now s root _ _
  | readMetadata key => exact run_readMetadata now s root key
  | contains key => exact run_contains now s root key
  | removeArtifact key => exact run_remove now s root key

/-- On a tree that lies at the root, work comes to what it comes to with the store. -/
theorem run_carryOut (root : String) (a : Activity Storage α) (s : FileStore) :
    ArtifactStore.run (.ofNanos now) a (.files s) =
      (((carryOut root a).run (surroundings root) now s.tree).1,
        .files ⟨((carryOut root a).run (surroundings root) now s.tree).2.2⟩) := by
  induction a generalizing s with
  | done a => rfl
  | ask r next ih =>
    cases r with
    | now => exact ih (.ofNanos now) s
    | store r =>
      rw [carryOut, Activity.run_bind, run_perform]
      exact ih (s.answer r).1 (s.answer r).2

end Disk

end PlaybookEngine
