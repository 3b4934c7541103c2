import PlaybookEngine.Files.Basic
import PlaybookEngine.Playbook.FrontMatter

namespace PlaybookEngine

/-- A file that was found, with the playbook in it or what is wrong with it. -/
structure DiscoveredFile where
  path : String
  playbook : Except PlaybookError Playbook

namespace Discovery

def isPlaybookName (name : String) : Bool :=
  match Path.extension? name with
  | some e => e = "md" || e = "markdown"
  | none => false

/-- A path below another one, which may be empty or end with a slash already. -/
def below (base name : String) : String :=
  if base = "" ∨ base.toList.getLast? = some '/' then base ++ name else base ++ "/" ++ name

def file? (path : String) (content : ByteArray) : Option DiscoveredFile :=
  match (Text.splitOn '/' path.toList).getLast? with
  | some name =>
    if isPlaybookName (String.ofList name) then some ⟨path, Playbook.ofFile path content⟩ else none
  | none => none

/-- The playbook files that a search path leads to. Paths are shown below `root`; a search path
that leads nowhere has none. -/
def search (root : String) (t : FileTree) (name : String) : List DiscoveredFile :=
  let base := below root name
  match t.resolve name with
  | none => []
  | some p =>
    match t.content? p with
    | some content => (file? base content).toList
    | none => (t.filesBelow p).filterMap fun f => file? (below base (Path.text f.1)) f.2

def searchAll (root : String) (t : FileTree) (names : List String) : List DiscoveredFile :=
  names.flatMap (search root t)

end Discovery

end PlaybookEngine
