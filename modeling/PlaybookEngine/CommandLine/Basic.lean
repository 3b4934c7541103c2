import PlaybookEngine.CommandLine.Arguments
import PlaybookEngine.CommandLine.Style
import PlaybookEngine.Engine.Result
import PlaybookEngine.Engine.Run
import PlaybookEngine.Files.Basic

namespace PlaybookEngine

namespace CommandLine

inductive Request
  | look (path : String)
  /-- The files below a directory, none if it is no directory. -/
  | files (dir : String)
  /-- Runs a playbook; artifacts are files below a directory. -/
  | execute (g : Engine) (artifactsDir code locale : String) (inputs : Fields Json)

def Request.Reply : Request → Type
  | .look _ => FileTree.Found
  | .files _ => Option (List (Path × ByteArray))
  | .execute _ _ _ _ _ => Except Panic (Except Failure Invocation)

end CommandLine

/-- The machine, seen from the command line. -/
def Console : Interface := ⟨CommandLine.Request, CommandLine.Request.Reply⟩

namespace Console

def look (path : String) : Activity Console FileTree.Found :=
  Activity.request (I := Console) (.look path)

def files (dir : String) : Activity Console (Option (List (Path × ByteArray))) :=
  Activity.request (I := Console) (.files dir)

def execute (g : Engine) (artifactsDir code locale : String) (inputs : Fields Json) :
    Activity Console (Except Panic (Except Failure Invocation)) :=
  Activity.request (I := Console) (.execute g artifactsDir code locale inputs)

end Console

namespace CommandLine

structure Outcome where
  status : Nat
  output : String
  errors : String

/-- An error that ends the command line, with what led to it, outermost first. -/
structure Complaint where
  message : String
  causes : List String

namespace Complaint

/-- A cause; of several each has its number. Further lines stand under the first. -/
def causeText (number : Option Nat) (cause : String) : String :=
  let (first, rest) := match number with
    | some n =>
      let digits := toString n
      (String.ofList (List.replicate (5 - digits.length) ' ') ++ digits ++ ": ", "       ")
    | none => ("    ", "    ")
  let lines := (Text.splitOn '\n' cause.toList).map String.ofList
  first ++ Text.join ("\n" ++ rest) lines ++ "\n"

def causeTexts : List String → List String
  | [] => []
  | [cause] => [causeText none cause]
  | causes => causes.mapIdx fun i cause => causeText (some i) cause

def text (c : Complaint) : String :=
  let causes := if c.causes = [] then "" else "\nCaused by:\n" ++ String.join (causeTexts c.causes)
  "Error: " ++ c.message ++ "\n" ++ causes

end Complaint

def lines (ls : List String) : String := String.join (ls.map (· ++ "\n"))

namespace Outcome

def success (output : String) : Outcome := ⟨0, output, ""⟩

def complaint (c : Complaint) : Outcome := ⟨1, "", c.text⟩

def panicked (why : Panic) : Outcome := ⟨101, "", lines ["thread 'main' panicked:", why.message]⟩

end Outcome

end CommandLine

end PlaybookEngine
