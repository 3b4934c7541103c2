import PlaybookEngine.CommandLine.Basic
import PlaybookEngine.Engine.World

namespace PlaybookEngine.CommandLine

structure Machine where
  tree : FileTree
  /-- The working directory. -/
  here : Path
  now : Instant
  ids : Identifier.Supply

namespace Machine

/-- A set of tools in which every call is answered with its parameters. -/
def echoTools : ToolSet := { ToolSet.empty with fallback := some ⟨"echo", .echo, 0, 0⟩ }

/-- Runs a playbook on the artifacts in `store`, and gives them back as they are then. -/
def run (store : FileTree) (now : Instant) (ids : Identifier.Supply) (g : Engine)
    (code locale : String) (inputs : Fields Json) :
    Except Panic (Except Failure Invocation) × FileTree × Instant × Identifier.Supply :=
  let world : World := ⟨echoTools, .files ⟨store⟩, .empty JobTable.defaultTtl, ids⟩
  let (answer, now, world) := world.execute g now code locale inputs
  let store := match world.store with
    | .files f => f.tree
    | _ => store
  (answer, store, now, world.ids)

def answer (m : Machine) : (r : Request) → r.Reply × Machine
  | .look path =>
    (match m.tree.locate m.here path with
      | some p => m.tree.find p
      | none => .missing, m)
  | .files dir => ((m.tree.locate m.here dir).bind m.tree.filesOf?, m)
  | .execute g dir code locale inputs =>
    let dir := Path.named m.here dir
    let (answer, store, now, ids) := run (m.tree.below dir) m.now m.ids g code locale inputs
    (answer, { m with tree := m.tree.graft dir store, now := now, ids := ids })

/-- Carries an activity out. -/
def perform {α : Type} (m : Machine) : Activity Console α → α × Machine
  | .done a => (a, m)
  | .ask r next =>
    let (x, m) := m.answer r
    perform m (next x)

/-- The files that another machine does not have in this form. -/
def changedFrom (m earlier : Machine) : List (Path × ByteArray) :=
  m.tree.files.filter fun f => earlier.tree.content? f.1 != some f.2

end Machine

end PlaybookEngine.CommandLine
