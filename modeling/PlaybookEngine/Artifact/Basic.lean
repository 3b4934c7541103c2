import PlaybookEngine.Artifact.Digest
import PlaybookEngine.Artifact.Key
import PlaybookEngine.Time.Timestamp

namespace PlaybookEngine

structure ArtifactDraft where
  capability : String
  name : String
  extension : String
  content : String
  contentStatus : ContentStatus
  executionId : String
  stepId : String
  deriving DecidableEq

@[ext] structure Artifact where
  id : String
  storageKey : String
  capability : String
  name : String
  version : Nat
  extension : String
  contentStatus : ContentStatus
  /-- The storage key of the parent version. -/
  derivedFrom : Option String
  executionId : String
  stepId : Option String
  createdAt : Timestamp
  sha256 : String
  sizeBytes : Nat
  deriving DecidableEq

def artifactId (executionId name : String) (version : Nat) : String :=
  executionId ++ "-" ++ name ++ "-v" ++ toString version

namespace ArtifactDraft

def key (d : ArtifactDraft) : ArtifactKey :=
  ⟨d.capability, artifactId d.executionId d.name 1, d.extension⟩

def encode (d : ArtifactDraft) : Json :=
  .ofObject (Json.entry "capability" (.str d.capability) ++ Json.entry "name" (.str d.name)
    ++ Json.entry "extension" (.str d.extension) ++ Json.entry "content" (.str d.content)
    ++ Json.entry "content_status" (.named d.contentStatus)
    ++ Json.entry "execution_id" (.str d.executionId) ++ Json.entry "step_id" (.str d.stepId))

def decode : Decoder ArtifactDraft := fun v => do
  let fs ← Decoder.record 7
    ["capability", "name", "extension", "content", "content_status", "execution_id", "step_id"] v
  some {
    capability := ← Decoder.required "capability" Decoder.string fs
    name := ← Decoder.required "name" Decoder.string fs
    extension := ← Decoder.required "extension" Decoder.string fs
    content := ← Decoder.required "content" Decoder.string fs
    contentStatus := ← Decoder.required "content_status" Decoder.named fs
    executionId := ← Decoder.required "execution_id" Decoder.string fs
    stepId := ← Decoder.required "step_id" Decoder.string fs }

end ArtifactDraft

namespace Timestamp

def encode (t : Timestamp) : Json := .str t.text

def decode : Decoder Timestamp := Decoder.stringWith Timestamp.read

end Timestamp

namespace Artifact

def key (a : Artifact) : ArtifactKey := ⟨a.capability, a.id, a.extension⟩

def encode (a : Artifact) : Json :=
  .ofObject (Json.entry "id" (.str a.id) ++ Json.entry "storage_key" (.str a.storageKey)
    ++ Json.entry "capability" (.str a.capability) ++ Json.entry "name" (.str a.name)
    ++ Json.entry "version" (.nat a.version) ++ Json.entry "extension" (.str a.extension)
    ++ Json.entry "content_status" (.named a.contentStatus)
    ++ Json.entry? "derived_from" (a.derivedFrom.map .str)
    ++ Json.entry "execution_id" (.str a.executionId)
    ++ Json.entry? "step_id" (a.stepId.map .str)
    ++ Json.entry "created_at" a.createdAt.encode
    ++ Json.entry "sha256" (.str a.sha256)
    ++ Json.entry "size_bytes" (.nat a.sizeBytes))

def decode : Decoder Artifact := fun v => do
  let fs ← Decoder.record 13
    ["id", "storage_key", "capability", "name", "version", "extension", "content_status",
      "derived_from", "execution_id", "step_id", "created_at", "sha256", "size_bytes"] v
  some {
    id := ← Decoder.required "id" Decoder.string fs
    storageKey := ← Decoder.required "storage_key" Decoder.string fs
    capability := ← Decoder.required "capability" Decoder.string fs
    name := ← Decoder.required "name" Decoder.string fs
    version := ← Decoder.required "version" Decoder.nat32 fs
    extension := ← Decoder.required "extension" Decoder.string fs
    contentStatus := ← Decoder.required "content_status" Decoder.named fs
    derivedFrom := ← Decoder.optional "derived_from" Decoder.string fs
    executionId := ← Decoder.required "execution_id" Decoder.string fs
    stepId := ← Decoder.optional "step_id" Decoder.string fs
    createdAt := ← Decoder.required "created_at" Timestamp.decode fs
    sha256 := ← Decoder.required "sha256" Decoder.string fs
    sizeBytes := ← Decoder.required "size_bytes" Decoder.nat64 fs }

end Artifact

end PlaybookEngine
