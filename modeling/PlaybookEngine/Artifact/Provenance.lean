import PlaybookEngine.Artifact.Store

namespace PlaybookEngine

inductive StorageRequest
  | now
  | store (r : StoreRequest)

def StorageRequest.Reply : StorageRequest → Type
  | .now => Timestamp
  | .store r => r.Reply

def Storage : Interface := ⟨StorageRequest, StorageRequest.Reply⟩

namespace Storage

def now : Activity Storage Timestamp := Activity.request (I := Storage) .now

def writeArtifact (key : ArtifactKey) (content : ByteArray) (status : ContentStatus) :
    Activity Storage (Except StorageError String) :=
  Activity.request (I := Storage) (.store (.writeArtifact key content status))

def writeMetadata (a : Artifact) : Activity Storage (Except StorageError Unit) :=
  Activity.request (I := Storage) (.store (.writeMetadata a))

def readMetadata (key : String) : Activity Storage (Except StorageError Artifact) :=
  Activity.request (I := Storage) (.store (.readMetadata key))

def removeArtifact (key : String) : Activity Storage (Except StorageError Unit) :=
  Activity.request (I := Storage) (.store (.removeArtifact key))

end Storage

namespace Artifact

/-- A version to be stored. -/
structure Version where
  capability : String
  name : String
  version : Nat
  extension : String
  content : ByteArray
  status : ContentStatus
  derivedFrom : Option String
  executionId : String
  stepId : Option String

namespace Version

def id (v : Version) : String := artifactId v.executionId v.name v.version

def key (v : Version) : ArtifactKey := ⟨v.capability, v.id, v.extension⟩

def artifact (v : Version) (storageKey : String) (now : Timestamp) : Artifact where
  id := v.id
  storageKey := storageKey
  capability := v.capability
  name := v.name
  version := v.version
  extension := v.extension
  contentStatus := v.status
  derivedFrom := v.derivedFrom
  executionId := v.executionId
  stepId := v.stepId
  createdAt := now
  sha256 := Digest.sha256 v.content
  sizeBytes := v.content.size

def ofDraft (d : ArtifactDraft) : Version where
  capability := d.capability
  name := d.name
  version := 1
  extension := d.extension
  content := d.content.toUTF8
  status := d.contentStatus
  derivedFrom := none
  executionId := d.executionId
  stepId := some d.stepId

def ofParent (parent : Artifact) (version : Nat) (content : String) (status : ContentStatus) :
    Version where
  capability := parent.capability
  name := parent.name
  version := version
  extension := parent.extension
  content := content.toUTF8
  status := status
  derivedFrom := some parent.storageKey
  executionId := parent.executionId
  stepId := parent.stepId

end Version

/-- Stores content and metadata of a version, both or neither. -/
def store (v : Version) : Activity Storage (Except StorageError Artifact) := do
  match ← Storage.writeArtifact v.key v.content v.status with
  | .error e => return .error e
  | .ok storageKey =>
    let a := v.artifact storageKey (← Storage.now)
    match ← Storage.writeMetadata a with
    | .ok () => return .ok a
    | .error e =>
      let _ ← Storage.removeArtifact storageKey
      return .error e

/-- Stores the first version of a draft. -/
def persist (d : ArtifactDraft) : Activity Storage (Except StorageError Artifact) :=
  store (.ofDraft d)

/-- No version number is tried beyond this one. -/
def lastVersion : Nat := 10000

/-- Version numbers are 32-bit words. -/
def nextVersion (version : Nat) : Nat := (version + 1) % 0x1_0000_0000

/-- How many more version numbers are tried after this one: after the last word it starts anew. -/
def versionsAfter (version : Nat) : Nat :=
  if version = 0xffff_ffff then lastVersion + 1 else lastVersion - version

theorem nextVersion_lt (version : Nat) : nextVersion version < 0x1_0000_0000 :=
  Nat.mod_lt _ (by decide)

/-- One number less is tried after the next one, which is none beyond the last. -/
theorem le_versionsAfter_next {left version : Nat} (h : left + 1 ≤ versionsAfter version) :
    left ≤ versionsAfter (nextVersion version) ∧ nextVersion version ≤ lastVersion := by
  unfold versionsAfter nextVersion lastVersion at *
  split at h <;> split <;> omega

theorem nextVersion_of_lt {version : Nat} (h : version < 0xffff_ffff) :
    nextVersion version = version + 1 := Nat.mod_eq_of_lt (by omega)

/-- The first version number whose metadata key is free; `left` more are tried after `version`. -/
def freeVersion (parent : Artifact) :
    (left version : Nat) → Activity Storage (Except StorageError Nat)
  | left, version => do
    let key : ArtifactKey :=
      ⟨parent.capability, artifactId parent.executionId parent.name version, parent.extension⟩
    match ← Storage.readMetadata (key.contentKey .draft) with
    | .error (.notFound _) => return .ok version
    | .error e => return .error e
    | .ok _ =>
      match left with
      | 0 => return .error (.alreadyExists key.metadataKey)
      | left + 1 => freeVersion parent left (nextVersion version)

/-- Stores a new version derived from the artifact at `parentKey`, which stays as it is. -/
def refine (parentKey content : String) (status : ContentStatus) :
    Activity Storage (Except StorageError Artifact) := do
  match ← Storage.readMetadata parentKey with
  | .error e => return .error e
  | .ok parent =>
    let next := nextVersion parent.version
    match ← freeVersion parent (versionsAfter next) next with
    | .error e => return .error e
    | .ok version => store (.ofParent parent version content status)

/-- Follows the links from a key back to an artifact without parent; `visited` are the keys so
far. -/
def lineageFrom (read : String → Except StorageError Artifact) :
    (left : Nat) → (visited : List String) → (key : String) → Except StorageError (List Artifact)
  | left, visited, key =>
    if visited.contains key then .error (.lineageCycle key)
    else do
      let a ← read key
      match a.derivedFrom with
      | none => return [a]
      | some parent =>
        match left with
        | 0 => .error (.lineageCycle parent)
        | left + 1 => return a :: (← lineageFrom read left (key :: visited) parent)

end Artifact

/-- Runs an activity on a store, at one reading of the clock. -/
def ArtifactStore.run {α : Type} (now : Timestamp) :
    Activity Storage α → ArtifactStore → α × ArtifactStore
  | .done a, s => (a, s)
  | .ask .now next, s => ArtifactStore.run now (next now) s
  | .ask (.store r) next, s =>
    let (x, s) := s.answer r
    ArtifactStore.run now (next x) s

/-- The chain from the artifact at a key back to its first version. Every link stands in stored
metadata, so more links than entries lead in a cycle. -/
def ArtifactStore.lineage (s : ArtifactStore) (key : String) :
    Except StorageError (List Artifact) :=
  Artifact.lineageFrom s.readMetadata (s.size + 1) [] key

end PlaybookEngine
