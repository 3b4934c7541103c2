import PlaybookEngine.Text.Parts

namespace PlaybookEngine

/-- The names on the way from the root. -/
abbrev Path := List String

namespace Path

def ancestors : Path → List Path
  | [] => []
  | [_] => []
  | name :: rest => [name] :: (ancestors rest).map (name :: ·)

/-- The path of a relative name; empty parts and single points vanish. -/
def ofText (text : String) : Path :=
  ((Text.splitOn '/' text.toList).filter fun part => part ≠ [] ∧ part ≠ ['.']).map String.ofList

def text (p : Path) : String := Text.join "/" p

/-- The path that a text names, seen from the directory `here`: a slash in front starts at the
root, and two points lead back up. -/
def named (here : Path) (text : String) : Path :=
  let start := if text.toList.head? = some '/' then [] else here
  ((Text.splitOn '/' text.toList).map String.ofList).foldl (fun p name =>
    if name = "" ∨ name = "." then p else if name = ".." then p.dropLast else p ++ [name]) start

/-- What follows the last point of a name that has something before it. -/
def extension? (name : String) : Option String :=
  match Text.splitLast '.' name.toList with
  | some (_ :: _, after) => some (String.ofList after)
  | _ => none

end Path

structure FileTree where
  files : List (Path × ByteArray)
  directories : List Path

namespace FileTree

/-- What a path leads to. It is blocked when a file stands in the way or a name cannot be used. -/
inductive Found
  | file (content : ByteArray)
  | directory
  | missing
  | blocked

def empty : FileTree := ⟨[], []⟩

def content? (t : FileTree) (p : Path) : Option ByteArray := t.files.lookup p

def isDirectory (t : FileTree) (p : Path) : Bool := p == [] || t.directories.contains p

def isFile (t : FileTree) (p : Path) : Bool := (t.content? p).isSome

/-- A name has at most 255 bytes. -/
def nameFits (name : String) : Bool := name.utf8ByteSize ≤ 255

def hasNul (name : String) : Bool := name.toList.contains '\x00'

/-- The first name on the way that does not exist is too long. -/
def stopsAtLongName (t : FileTree) (p : Path) : Bool :=
  (p :: Path.ancestors p).any fun q =>
    t.isDirectory q.dropLast && !(q.getLast?.elim true nameFits)

def find (t : FileTree) (p : Path) : Found :=
  match t.content? p with
  | some content => .file content
  | none =>
    if t.isDirectory p then .directory
    else if p.any hasNul || (Path.ancestors p).any t.isFile || t.stopsAtLongName p then .blocked
    else .missing

/-- Adds directories; none when one of them is a file or has a name that cannot be used. -/
def addDirectories (t : FileTree) (ps : List Path) : Option FileTree :=
  if ps.any fun p => t.isFile p || !p.all nameFits || p.any hasNul then none
  else some { t with directories := t.directories ++ ps.filter fun p => !t.directories.contains p }

def put (t : FileTree) (p : Path) (content : ByteArray) : FileTree :=
  { files := (p, content) :: t.files.filter (·.1 ≠ p)
    directories := t.directories ++ (Path.ancestors p).filter fun a => !t.directories.contains a }

def remove (t : FileTree) (p : Path) : FileTree :=
  { t with files := t.files.filter (·.1 ≠ p) }

def putDirectory (t : FileTree) (p : Path) : FileTree :=
  { t with directories := t.directories ++
      (p :: Path.ancestors p).filter fun a => !t.directories.contains a }

/-- Follows names from a directory; `..` leads back up, and all but the last lead to directories. -/
def follow (t : FileTree) : Path → List String → Option Path
  | here, [] => some here
  | here, name :: rest =>
    if !t.isDirectory here then none
    else if name = "" ∨ name = "." then follow t here rest
    else if name = ".." then
      match here with
      | [] => none
      | _ :: _ => follow t here.dropLast rest
    else
      let next := here ++ [name]
      if t.isDirectory next || t.isFile next then follow t next rest else none

def resolve (t : FileTree) (name : String) : Option Path :=
  t.follow [] ((Text.splitOn '/' name.toList).map String.ofList)

/-- The files below a directory, depth first, the entries of each directory by name. -/
def filesBelow (t : FileTree) (dir : Path) : List (Path × ByteArray) :=
  (t.files.filterMap fun f =>
    if dir.isPrefixOf f.1 then some (f.1.drop dir.length, f.2) else none).mergeSort
      fun a b => !decide (b.1 < a.1)

def filesOf? (t : FileTree) (p : Path) : Option (List (Path × ByteArray)) :=
  if t.isDirectory p then some (t.filesBelow p) else none

/-- What a text leads to, seen from the directory `here`; it starts at the root with a slash. -/
def locate (t : FileTree) (here : Path) (text : String) : Option Path :=
  let names := (Text.splitOn '/' text.toList).map String.ofList
  match names with
  | [""] => none
  | "" :: rest => t.follow [] rest
  | names => t.follow here names

def below (t : FileTree) (dir : Path) : FileTree :=
  let rest := fun p => if dir.isPrefixOf p then some (p.drop dir.length) else none
  { files := t.files.filterMap fun f => (rest f.1).map fun p => (p, f.2)
    directories := t.directories.filterMap rest }

def graft (t : FileTree) (dir : Path) (branch : FileTree) : FileTree :=
  branch.files.foldr (fun f t => t.put (dir ++ f.1) f.2) t

theorem content?_put (t : FileTree) (p q : Path) (c : ByteArray) :
    (t.put p c).content? q = if q = p then some c else t.content? q := by
  by_cases h : q = p
  · simp [content?, put, h]
  · have hq : (q == p) = false := by simpa using h
    simp only [content?, put, List.lookup_cons, hq, h, if_false]
    induction t.files with
    | nil => rfl
    | cons f fs ih =>
      obtain ⟨r, d⟩ := f
      by_cases hr : r = p
      · subst hr
        simpa [List.lookup_cons, hq] using ih
      · simp only [List.filter_cons, ne_eq, hr, not_false_eq_true, decide_true, if_true,
          List.lookup_cons]
        split
        · rfl
        · exact ih

end FileTree

end PlaybookEngine
