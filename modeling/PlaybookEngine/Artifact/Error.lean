namespace PlaybookEngine

inductive StorageError
  /-- Artifacts are immutable; the key is taken. -/
  | alreadyExists (key : String)
  | notFound (key : String)
  | invalidKey (key : String)
  /-- The links to parents lead back to this key. -/
  | lineageCycle (key : String)
  /-- The file system refused. -/
  | io (key : String)
  /-- The stored metadata is no artifact. -/
  | metadata
  deriving DecidableEq

def StorageError.message : StorageError → String
  | .alreadyExists key => "Artifact already exists: " ++ key
  | .notFound key => "Artifact not found: " ++ key
  | .invalidKey key => "Invalid storage key: " ++ key
  | .lineageCycle key => "Provenance cycle detected at " ++ key
  | .io key => "I/O error for " ++ key
  | .metadata => "Invalid artifact metadata"

end PlaybookEngine
