import PlaybookEngine.CommandLine.Commands
import PlaybookEngine.CommandLine.Machine
import Std.Time.DateTime.Timestamp

namespace PlaybookEngine.Tess

open CommandLine

/-- What a path leads to. -/
def look (path : String) : IO FileTree.Found := do
  try
    let p ← IO.FS.realPath path
    if ← p.isDir then return .directory
    return .file (← IO.FS.readBinFile p)
  catch _ => return .missing

/-- The playbook files below a directory. -/
partial def playbookFiles (dir : String) : IO (List (Path × ByteArray)) := do
  let mut found := []
  for e in ← (← IO.FS.realPath dir).readDir do
    let name := e.fileName
    let path := Discovery.below dir name
    match ← look path with
    | .directory => found := found ++ (← playbookFiles path).map fun f => (name :: f.1, f.2)
    | .file content => if Discovery.isPlaybookName name then found := found ++ [([name], content)]
    | _ => pure ()
  return found

/-- The files below a directory in the order of a walk by name, none if it is no directory. -/
def files (dir : String) : IO (Option (List (Path × ByteArray))) := do
  match ← look dir with
  | .directory =>
    let found ← playbookFiles dir
    return some ((found.foldl (fun t f => t.put f.1 f.2) FileTree.empty).filesBelow [])
  | _ => return none

def write (dir : String) (t : FileTree) : IO Unit := do
  for (path, content) in t.files do
    let parent := Discovery.below dir (Path.text path.dropLast)
    IO.FS.createDirAll parent
    IO.FS.writeBinFile (Discovery.below dir (Path.text path)) content

def answer : (r : Request) → IO r.Reply
  | .look path => look path
  | .files dir => files dir
  | .execute g dir code locale inputs => do
    let now := (← Std.Time.Timestamp.now).toNanosecondsSinceUnixEpoch.val.toNat
    let seed := (← IO.getRandomBytes 15).foldl (fun n b => n * 256 + b.toNat) 0
    let (answer, store, _, _) := Machine.run .empty now ⟨seed⟩ g code locale inputs
    write dir store
    return answer

def perform {α : Type} : Activity Console α → IO α
  | .done a => return a
  | .ask r next => do perform (next (← answer r))

/-- The variables of the environment that count. -/
def environmentNames : List String :=
  ["HOME", "TESSERA_PLAYBOOKS_DIR", "TESSERA_ARTIFACTS_DIR", "NO_COLOR", "CLICOLOR",
    "CLICOLOR_FORCE"]

def start (args : List String) : IO UInt32 := do
  let env ← environmentNames.filterMapM fun k => do return (← IO.getEnv k).map fun v => (k, v)
  let terminal ← (← IO.getStdout).isTty
  let r ← perform (program args (fun k => env.lookup k) terminal)
  IO.print r.output
  IO.eprint r.errors
  return r.status.toUInt32

end PlaybookEngine.Tess

def main (args : List String) : IO UInt32 := PlaybookEngine.Tess.start args
