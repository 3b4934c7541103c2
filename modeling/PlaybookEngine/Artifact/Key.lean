import PlaybookEngine.Artifact.Error
import PlaybookEngine.Binding.Pattern

namespace PlaybookEngine

@[ext] structure ArtifactKey where
  capability : String
  id : String
  extension : String
  deriving DecidableEq

namespace ArtifactKey

def contentKey (k : ArtifactKey) (status : ContentStatus) : String :=
  k.capability ++ "/generated/" ++ Named.text status ++ "/" ++ k.id ++ "." ++ k.extension

def metadataKey (k : ArtifactKey) : String :=
  k.capability ++ "/metadata/" ++ k.id ++ ".json"

/-- The key and status of a content key: four parts, of which the first is not empty, the second
and third are fixed names, and the last has a point with something before it. -/
def ofContentKey? (key : String) : Option (ArtifactKey × ContentStatus) :=
  match Text.splitOn '/' key.toList with
  | [capability, generated, status, file] =>
    if generated ≠ "generated".toList ∨ capability = [] then none
    else
      match Named.ofText? (α := ContentStatus) (String.ofList status), Text.splitLast '.' file with
      | some status, some (id, extension) =>
        if id = [] then none
        else some (⟨String.ofList capability, String.ofList id, String.ofList extension⟩, status)
      | _, _ => none
  | _ => none

def read (key : String) : Except StorageError (ArtifactKey × ContentStatus) :=
  match ofContentKey? key with
  | some r => .ok r
  | none => .error (.invalidKey key)

theorem read_eq_ok {key : String} {r : ArtifactKey × ContentStatus} :
    read key = .ok r ↔ ofContentKey? key = some r := by
  unfold read
  split <;> simp_all

end ArtifactKey

namespace StoragePath

/-- The components of a path: repeated slashes and single points inside vanish. -/
def components (key : List Char) : List (List Char) :=
  (Text.splitOn '/' key).filter fun part => part ≠ [] ∧ part ≠ ['.']

/-- A key that stays below the root: not empty, relative, no component that points at itself in
front and none that points upward. -/
def isSafe (key : List Char) : Bool :=
  match Text.splitOn '/' key with
  | [] => false
  | first :: rest => first ≠ [] && first ≠ ['.'] && !(first :: rest).contains ['.', '.']

/-- The components of the file that a key names below the root. -/
def ofKey (key : String) : Except StorageError (List (List Char)) :=
  if isSafe key.toList then .ok (components key.toList) else .error (.invalidKey key)

end StoragePath

end PlaybookEngine
