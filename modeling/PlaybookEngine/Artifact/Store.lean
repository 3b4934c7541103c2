import PlaybookEngine.Activity.Basic
import PlaybookEngine.Artifact.Basic
import PlaybookEngine.Files.Basic
import PlaybookEngine.Json.Printer
import PlaybookEngine.Json.Reader

namespace PlaybookEngine

inductive StoreRequest
  /-- Writes content and answers with its key. -/
  | writeArtifact (key : ArtifactKey) (content : ByteArray) (status : ContentStatus)
  | readArtifact (key : String)
  | writeMetadata (a : Artifact)
  /-- Reads the metadata that belongs to a content key. -/
  | readMetadata (key : String)
  | contains (key : String)
  /-- Removes content; a missing key is no error. -/
  | removeArtifact (key : String)

def StoreRequest.Reply : StoreRequest → Type
  | .writeArtifact _ _ _ => Except StorageError String
  | .readArtifact _ => Except StorageError ByteArray
  | .writeMetadata _ => Except StorageError Unit
  | .readMetadata _ => Except StorageError Artifact
  | .contains _ => Except StorageError Bool
  | .removeArtifact _ => Except StorageError Unit

namespace Artifact

def ofBytes (bytes : ByteArray) : Except StorageError Artifact :=
  match ((String.fromUTF8? bytes).bind Json.read).bind decode with
  | some a => .ok a
  | none => .error .metadata

end Artifact

structure MemoryStore where
  entries : Fields ByteArray

namespace MemoryStore

def empty : MemoryStore := ⟨[]⟩

def create (s : MemoryStore) (key : String) (bytes : ByteArray) :
    Except StorageError Unit × MemoryStore :=
  match Fields.get? key s.entries with
  | some _ => (.error (.alreadyExists key), s)
  | none => (.ok (), ⟨Fields.insert key bytes s.entries⟩)

def read (s : MemoryStore) (key : String) : Except StorageError ByteArray :=
  match Fields.get? key s.entries with
  | some bytes => .ok bytes
  | none => .error (.notFound key)

def readMetadata (s : MemoryStore) (key : String) : Except StorageError Artifact := do
  let (k, _) ← ArtifactKey.read key
  match Fields.get? k.metadataKey s.entries with
  | some bytes => Artifact.ofBytes bytes
  | none => .error (.notFound key)

def answer (s : MemoryStore) : (r : StoreRequest) → r.Reply × MemoryStore
  | .writeArtifact key content status =>
    let (r, s) := s.create (key.contentKey status) content
    (r.map fun _ => key.contentKey status, s)
  | .readArtifact key => (s.read key, s)
  | .writeMetadata a =>
    match ArtifactKey.read a.storageKey with
    | .error e => (.error e, s)
    | .ok (k, _) => s.create k.metadataKey a.encode.compact.toUTF8
  | .readMetadata key => (s.readMetadata key, s)
  | .contains key => (.ok (Fields.contains key s.entries), s)
  | .removeArtifact key => (.ok (), ⟨Fields.erase key s.entries⟩)

end MemoryStore

/-- A store whose keys are paths below the root of a tree of files. -/
structure FileStore where
  tree : FileTree

namespace FileStore

def path (key : String) : Except StorageError Path :=
  (StoragePath.ofKey key).map fun parts => parts.map String.ofList

/-- The last part of the key is a point, which stands for the directory itself. -/
def endsInPoint (key : String) : Bool :=
  ((Text.splitOn '/' key.toList).filter (· ≠ [])).getLast? = some ['.']

/-- A key that ends with a slash or in a point can only name a directory. -/
def namesDirectory (key : String) : Bool := key.toList.getLast? = some '/' || endsInPoint key

/-- Why no file is made under a key that can only name a directory: only a point is looked for. -/
def refusal (tree : FileTree) (p : Path) (key : String) : StorageError :=
  if endsInPoint key && tree.isDirectory p then .alreadyExists key else .io key

def create (s : FileStore) (key : String) (bytes : ByteArray) :
    Except StorageError Unit × FileStore :=
  match path key with
  | .error e => (.error e, s)
  | .ok p =>
    match s.tree.addDirectories (Path.ancestors p) with
    | none => (.error (.io key), s)
    | some tree =>
      if namesDirectory key then (.error (refusal tree p key), ⟨tree⟩)
      else
        match tree.find p with
        | .file _ => (.error (.alreadyExists key), ⟨tree⟩)
        | .directory => (.error (.alreadyExists key), ⟨tree⟩)
        | .blocked => (.error (.io key), ⟨tree⟩)
        | .missing => (.ok (), ⟨tree.put p bytes⟩)

def read (s : FileStore) (key : String) : Except StorageError ByteArray := do
  match s.tree.find (← path key) with
  | .file bytes => .ok bytes
  | .missing => .error (.notFound key)
  | .directory => .error (.io key)
  | .blocked => .error (.io key)

def readArtifact (s : FileStore) (key : String) : Except StorageError ByteArray := do
  let _ ← ArtifactKey.read key
  s.read key

def readMetadata (s : FileStore) (key : String) : Except StorageError Artifact := do
  let (k, _) ← ArtifactKey.read key
  match s.read k.metadataKey with
  | .ok bytes => Artifact.ofBytes bytes
  | .error (.notFound _) => .error (.notFound key)
  | .error e => .error e

def contains (s : FileStore) (key : String) : Except StorageError Bool := do
  match s.tree.find (← path key) with
  | .file _ => if namesDirectory key then .error (.io key) else .ok true
  | .directory => .ok true
  | .missing => .ok false
  | .blocked => .error (.io key)

def remove (s : FileStore) (key : String) : Except StorageError Unit × FileStore :=
  match ArtifactKey.read key, path key with
  | .error e, _ => (.error e, s)
  | _, .error e => (.error e, s)
  | .ok _, .ok p =>
    match s.tree.find p with
    | .file _ => (.ok (), ⟨s.tree.remove p⟩)
    | .missing => (.ok (), s)
    | .directory => (.error (.io key), s)
    | .blocked => (.error (.io key), s)

def answer (s : FileStore) : (r : StoreRequest) → r.Reply × FileStore
  | .writeArtifact key content status =>
    let (r, s) := s.create (key.contentKey status) content
    (r.map fun _ => key.contentKey status, s)
  | .readArtifact key => (s.readArtifact key, s)
  | .writeMetadata a =>
    match ArtifactKey.read a.storageKey with
    | .error e => (.error e, s)
    | .ok (k, _) => s.create k.metadataKey a.encode.pretty.toUTF8
  | .readMetadata key => (s.readMetadata key, s)
  | .contains key => (s.contains key, s)
  | .removeArtifact key => s.remove key

end FileStore

/-- The stores that an engine can work with. -/
inductive ArtifactStore
  | memory (s : MemoryStore)
  | files (s : FileStore)

namespace ArtifactStore

def answer (s : ArtifactStore) (r : StoreRequest) : r.Reply × ArtifactStore :=
  match s with
  | .memory m => (m.answer r).map id .memory
  | .files f => (f.answer r).map id .files

/-- The keys of content and metadata. -/
def keys : ArtifactStore → List String
  | .memory m => Fields.keys m.entries
  | .files f => (f.tree.files.map fun x => Path.text x.1).mergeSort fun a b => a ≤ b

def readMetadata (s : ArtifactStore) (key : String) : Except StorageError Artifact :=
  (s.answer (.readMetadata key)).1

/-- How many entries there are. -/
def size : ArtifactStore → Nat
  | .memory m => m.entries.length
  | .files f => f.tree.files.length

def isFiles : ArtifactStore → Bool
  | .memory _ => false
  | .files _ => true

end ArtifactStore

end PlaybookEngine
