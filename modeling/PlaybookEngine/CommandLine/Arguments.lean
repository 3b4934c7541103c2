import PlaybookEngine.Text.Parts

namespace PlaybookEngine.CommandLine

/-- Why arguments do not lead to a command. -/
inductive Stop
  | misuse
  | help
  | version
  deriving DecidableEq

inductive ValueKind
  | text
  /-- A path is never empty. -/
  | path
  deriving DecidableEq

inductive OptionKind
  | flag
  | value (k : ValueKind)
  | help
  | version

structure OptionSpec where
  name : String
  /-- The letter that may stand for the name. -/
  letter : Option Char
  kind : OptionKind

/-- The option ends the reading at once. -/
def OptionSpec.isStop (o : OptionSpec) : Bool :=
  match o.kind with
  | .help => true
  | .version => true
  | _ => false

/-- What may stand in one place: options, values in order, and commands. -/
structure Grammar where
  options : List OptionSpec
  values : List ValueKind
  commands : List String

/-- What stood there. A flag has the empty value. -/
structure Given where
  options : List (String × String)
  values : List String

/-- How an argument looks. -/
inductive Shape
  /-- Two dashes alone: what follows are values. -/
  | escape
  | long (name : String) (value : Option String)
  | short (letter : Char) (value : Option String)
  | plain

namespace Shape

def ofText (s : String) : Shape :=
  match s.toList with
  | ['-', '-'] => .escape
  | '-' :: '-' :: cs =>
    let name := String.ofList (cs.takeWhile (· ≠ '='))
    match cs.dropWhile (· ≠ '=') with
    | [] => .long name none
    | _ :: value => .long name (some (String.ofList value))
  | '-' :: c :: cs =>
    match cs with
    | [] => .short c none
    | '=' :: value => .short c (some (String.ofList value))
    | value => .short c (some (String.ofList value))
  | _ => .plain

def isPlain : Shape → Bool
  | .plain => true
  | _ => false

end Shape

namespace ValueKind

def accepts : ValueKind → String → Bool
  | .text, _ => true
  | .path, s => s ≠ ""

end ValueKind

namespace Given

def option? (g : Given) (name : String) : Option String := g.options.lookup name

def has (g : Given) (name : String) : Bool := (g.option? name).isSome

/-- Adds an option, once. -/
def addOption (g : Given) (name value : String) : Except Stop Given :=
  if g.has name then .error .misuse
  else .ok { g with options := g.options ++ [(name, value)] }

end Given

namespace Grammar

/-- Adds a value in the next place for one. -/
def addValue (g : Grammar) (value : String) (given : Given) : Except Stop Given :=
  match g.values[given.values.length]? with
  | some k =>
    if k.accepts value then .ok { given with values := given.values ++ [value] }
    else .error .misuse
  | none => .error .misuse

def option? (g : Grammar) : Shape → Option OptionSpec
  | .long name _ => g.options.find? (·.name == name)
  | .short letter _ => g.options.find? (·.letter == some letter)
  | _ => none

/-- Adds the value of an option. -/
def addOption (name : String) (k : ValueKind) (value : String) (given : Given) :
    Except Stop Given :=
  if k.accepts value then given.addOption name value else .error .misuse

/-- What an option stands for, with the value that is written to it. -/
def begin (o : OptionSpec) (attached : Option String) (given : Given) :
    Except Stop (Option (String × ValueKind) × Given) :=
  match o.kind, attached with
  | .help, none => .error .help
  | .version, none => .error .version
  | .flag, none => do return (none, ← given.addOption o.name "")
  | .value k, some v => do return (none, ← addOption o.name k v given)
  | .value k, none => .ok (some (o.name, k), given)
  | _, some _ => .error .misuse

/-- Reads arguments up to a command, which is given with the arguments after it. An option that is
`pending` takes the next argument, which must be plain. -/
def read (g : Grammar) : (pending : Option (String × ValueKind)) → List String → Given →
    Except Stop (Given × Option (String × List String))
  | none, [], given => .ok (given, none)
  | some _, [], _ => .error .misuse
  | some (name, k), arg :: rest, given =>
    if (Shape.ofText arg).isPlain then do g.read none rest (← addOption name k arg given)
    else .error .misuse
  | none, arg :: rest, given =>
    if g.commands.contains arg then .ok (given, some (arg, rest))
    else
      let shape := Shape.ofText arg
      match shape, g.option? shape with
      | .escape, _ => do return (← rest.foldlM (fun given v => g.addValue v given) given, none)
      | .plain, _ => do g.read none rest (← g.addValue arg given)
      | .long _ attached, some o => do
        let (pending, given) ← begin o attached given
        g.read pending rest given
      | .short _ attached, some o => do
        let (pending, given) ← begin o (if o.isStop then none else attached) given
        g.read pending rest given
      | _, none => .error .misuse

end Grammar

/-- Where the inputs of a run come from. -/
inductive InputSource
  | none
  | text (s : String)
  | file (path : String)

inductive Command
  | list (json : Bool)
  | describe (code : String) (locale : Option String) (json : Bool)
  | validate (dir : Option String) (json : Bool)
  | run (code : String) (locale : Option String) (inputs : InputSource) (json : Bool)

structure Arguments where
  config : Option String
  playbooksDir : Option String
  command : Option Command

namespace Arguments

def jsonOption : OptionSpec := ⟨"json", none, .flag⟩

def localeOption : OptionSpec := ⟨"locale", none, .value .text⟩

/-- The options that may stand before and after the command. -/
def commonOptions : List OptionSpec := [
  ⟨"log-level", some 'l', .value .text⟩,
  ⟨"playbooks-dir", some 'p', .value .path⟩,
  ⟨"config", some 'c', .value .path⟩,
  ⟨"help", some 'h', .help⟩]

def commandNames : List String := ["list", "show", "validate", "run", "help"]

def outer : Grammar :=
  ⟨commonOptions ++ [⟨"version", some 'V', .version⟩], [], commandNames⟩

def grammar (command : String) : Grammar :=
  match command with
  | "show" => ⟨commonOptions ++ [localeOption, jsonOption], [.text], []⟩
  | "validate" => ⟨commonOptions ++ [jsonOption], [.path], []⟩
  | "run" =>
    ⟨commonOptions ++ [localeOption, jsonOption, ⟨"input", some 'i', .value .text⟩,
      ⟨"input-file", none, .value .path⟩], [.text], []⟩
  | _ => ⟨commonOptions ++ [jsonOption], [], []⟩

def inputSource (g : Given) : Except Stop InputSource :=
  match g.option? "input", g.option? "input-file" with
  | none, none => .ok .none
  | some s, none => .ok (.text s)
  | none, some path => .ok (.file path)
  | some _, some _ => .error .misuse

def commandOf (name : String) (g : Given) : Except Stop Command :=
  let json := g.has "json"
  match name, g.values with
  | "list", _ => .ok (.list json)
  | "validate", dir => .ok (.validate dir.head? json)
  | "show", [code] => .ok (.describe code (g.option? "locale") json)
  | "run", [code] => do return .run code (g.option? "locale") (← inputSource g) json
  | _, _ => .error .misuse

/-- The command `help` takes the name of a command. -/
def isHelpTopic : List String → Bool
  | [] => true
  | [name] => commandNames.contains name
  | _ => false

def ofGiven (before after : Given) (c : Option Command) : Arguments :=
  let option? := fun name => after.option? name <|> before.option? name
  ⟨option? "config", option? "playbooks-dir", c⟩

def read (args : List String) : Except Stop Arguments := do
  let (before, found) ← outer.read none args ⟨[], []⟩
  match found with
  | none => return ofGiven before ⟨[], []⟩ none
  | some ("help", topic) => .error (if isHelpTopic topic then .help else .misuse)
  | some (name, rest) =>
    let (after, _) ← (grammar name).read none rest ⟨[], []⟩
    return ofGiven before after (some (← commandOf name after))

end Arguments

end PlaybookEngine.CommandLine
