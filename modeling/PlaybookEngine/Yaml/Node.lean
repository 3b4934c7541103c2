import PlaybookEngine.Yaml.Token

namespace PlaybookEngine.Yaml

inductive Node
  | scalar (tag : Option String) (style : Style) (text : String)
  | sequence (tag : Option String) (items : List Node)
  | mapping (tag : Option String) (pairs : List (Node × Node))

/-- The nodes of the anchors read so far; an anchor whose node is not complete has none. -/
abbrev Anchors := List (String × Option Node)

namespace Node

def empty (tag : Option String) : Node := .scalar tag .plain ""

def resolveTag (handle suffix : String) : Option String :=
  if handle = "" then some suffix
  else if handle = "!" then some ("!" ++ suffix)
  else if handle = "!!" then some ("tag:yaml.org,2002:" ++ suffix)
  else none

/-- The anchor and the tag in front of a node, in either order, one each. -/
def properties : List Token → Option (Option String × Option String × List Token)
  | .anchor a :: .tag h s :: rest => (resolveTag h s).map (some a, some ·, rest)
  | .tag h s :: .anchor a :: rest => (resolveTag h s).map (some a, some ·, rest)
  | .anchor a :: rest => some (some a, none, rest)
  | .tag h s :: rest => (resolveTag h s).map (none, some ·, rest)
  | rest => some (none, none, rest)

def register (anchor : Option String) (node : Option Node) (anchors : Anchors) : Anchors :=
  match anchor with
  | some a => (a, node) :: anchors
  | none => anchors

inductive Place
  | block
  /-- A value of a block mapping, where a sequence needs no further indentation. -/
  | blockValue
  | flow
  deriving DecidableEq

abbrev Rest := Anchors × List Token

/-- A further node must be empty before one of these tokens. -/
def endsBlock : Token → Bool
  | .key | .value | .blockEnd => true
  | _ => false

def isEmptyBefore (stops : Token → Bool) : List Token → Bool
  | t :: _ => stops t
  | [] => true

mutual

/-- The node at the start of the tokens. -/
def read : (fuel : Nat) → Place → Anchors → List Token → Option (Node × Rest)
  | 0, _, _, _ => none
  | fuel + 1, place, anchors, ts =>
    match ts with
    | .alias a :: rest =>
      match anchors.find? (·.1 == a) with
      | some (_, some n) => some (n, anchors, rest)
      | _ => none
    | _ => do
      let (anchor, tag, ts) ← properties ts
      let (n, anchors, rest) ←
        content fuel place (anchor.isSome || tag.isSome) tag (register anchor none anchors) ts
      some (n, register anchor (some n) anchors, rest)

/-- The node behind its properties; with properties it may be empty. -/
def content : (fuel : Nat) → Place → Bool → Option String → Anchors → List Token →
    Option (Node × Rest)
  | 0, _, _, _, _, _ => none
  | fuel + 1, place, mayBeEmpty, tag, anchors, ts =>
    match ts, place with
    | .blockEntry :: _, .blockValue => do
      let (items, r) ← indentless fuel anchors ts
      some (.sequence tag items, r)
    | .scalar style text :: rest, _ =>
      -- The lone exclamation mark leaves a scalar to its form.
      some (.scalar (if tag = some "!" then none else tag) style text, anchors, rest)
    | .flowSequenceStart :: rest, _ => do
      let (items, r) ← flowItems fuel true anchors rest
      some (.sequence tag items, r)
    | .flowMappingStart :: rest, _ => do
      let (pairs, r) ← flowPairs fuel true anchors rest
      some (.mapping tag pairs, r)
    | .blockSequenceStart :: rest, .block => do
      let (items, r) ← blockItems fuel anchors rest
      some (.sequence tag items, r)
    | .blockSequenceStart :: rest, .blockValue => do
      let (items, r) ← blockItems fuel anchors rest
      some (.sequence tag items, r)
    | .blockMappingStart :: rest, .block => do
      let (pairs, r) ← blockPairs fuel anchors rest
      some (.mapping tag pairs, r)
    | .blockMappingStart :: rest, .blockValue => do
      let (pairs, r) ← blockPairs fuel anchors rest
      some (.mapping tag pairs, r)
    | _, _ => if mayBeEmpty then some (.empty tag, anchors, ts) else none

/-- A node, or an empty one when a token follows that ends it. -/
def readOr : (fuel : Nat) → (stops : Token → Bool) → Place → Anchors → List Token →
    Option (Node × Rest)
  | 0, _, _, _, _ => none
  | fuel + 1, stops, place, anchors, ts =>
    if isEmptyBefore stops ts then some (.empty none, anchors, ts) else read fuel place anchors ts

def blockItems : (fuel : Nat) → Anchors → List Token → Option (List Node × Rest)
  | 0, _, _ => none
  | fuel + 1, anchors, ts =>
    match ts with
    | .blockEnd :: rest => some ([], anchors, rest)
    | .blockEntry :: rest => do
      let (n, anchors, rest) ←
        readOr fuel (fun t => t == .blockEntry || t == .blockEnd) .block anchors rest
      let (ns, r) ← blockItems fuel anchors rest
      some (n :: ns, r)
    | _ => none

/-- The items of a sequence that ends where the mapping around it goes on. -/
def indentless : (fuel : Nat) → Anchors → List Token → Option (List Node × Rest)
  | 0, _, _ => none
  | fuel + 1, anchors, ts =>
    match ts with
    | .blockEntry :: rest => do
      let (n, anchors, rest) ←
        readOr fuel (fun t => t == .blockEntry || endsBlock t) .block anchors rest
      let (ns, r) ← indentless fuel anchors rest
      some (n :: ns, r)
    | _ => some ([], anchors, ts)

def blockPairs : (fuel : Nat) → Anchors → List Token → Option (List (Node × Node) × Rest)
  | 0, _, _ => none
  | fuel + 1, anchors, ts =>
    match ts with
    | .blockEnd :: rest => some ([], anchors, rest)
    | .key :: rest => do
      let (k, anchors, rest) ← readOr fuel endsBlock .blockValue anchors rest
      let (v, anchors, rest) ← blockValueOf fuel anchors rest
      let (ps, r) ← blockPairs fuel anchors rest
      some ((k, v) :: ps, r)
    | _ => none

def blockValueOf : (fuel : Nat) → Anchors → List Token → Option (Node × Rest)
  | 0, _, _ => none
  | fuel + 1, anchors, ts =>
    match ts with
    | .value :: rest => readOr fuel endsBlock .blockValue anchors rest
    | _ => some (.empty none, anchors, ts)

/-- The items of a flow sequence; before all but the first a comma stands, and one may end it. -/
def flowItems : (fuel : Nat) → (first : Bool) → Anchors → List Token → Option (List Node × Rest)
  | 0, _, _, _ => none
  | fuel + 1, first, anchors, ts =>
    match ts, first with
    | .flowSequenceEnd :: rest, _ => some ([], anchors, rest)
    | .flowEntry :: .flowSequenceEnd :: rest, false => some ([], anchors, rest)
    | .flowEntry :: rest, false => do
      let (n, anchors, rest) ← flowItem fuel anchors rest
      let (ns, r) ← flowItems fuel false anchors rest
      some (n :: ns, r)
    | ts, true => do
      let (n, anchors, rest) ← flowItem fuel anchors ts
      let (ns, r) ← flowItems fuel false anchors rest
      some (n :: ns, r)
    | _, _ => none

/-- An item of a flow sequence: a node, or one pair that makes a mapping of its own. -/
def flowItem : (fuel : Nat) → Anchors → List Token → Option (Node × Rest)
  | 0, _, _ => none
  | fuel + 1, anchors, ts =>
    match ts with
    | .key :: rest => do
      let stops : Token → Bool := fun t => t == .value || t == .flowEntry || t == .flowSequenceEnd
      -- A key that is left out takes the token after its mark with it.
      let (k, anchors, rest) ←
        if isEmptyBefore stops rest then some (Node.empty none, anchors, rest.drop 1)
        else read fuel .flow anchors rest
      let (v, anchors, rest) ← flowValueOf fuel (· == .flowSequenceEnd) anchors rest
      some (.mapping none [(k, v)], anchors, rest)
    | ts => read fuel .flow anchors ts

/-- The value of a pair in a flow collection that ends at `closes`. -/
def flowValueOf : (fuel : Nat) → (closes : Token → Bool) → Anchors → List Token →
    Option (Node × Rest)
  | 0, _, _, _ => none
  | fuel + 1, closes, anchors, ts =>
    match ts with
    | .value :: rest => readOr fuel (fun t => t == .flowEntry || closes t) .flow anchors rest
    | _ => some (.empty none, anchors, ts)

def flowPairs : (fuel : Nat) → (first : Bool) → Anchors → List Token →
    Option (List (Node × Node) × Rest)
  | 0, _, _, _ => none
  | fuel + 1, first, anchors, ts =>
    match ts, first with
    | .flowMappingEnd :: rest, _ => some ([], anchors, rest)
    | .flowEntry :: .flowMappingEnd :: rest, false => some ([], anchors, rest)
    | .flowEntry :: rest, false => do
      let (p, anchors, rest) ← flowPair fuel anchors rest
      let (ps, r) ← flowPairs fuel false anchors rest
      some (p :: ps, r)
    | ts, true => do
      let (p, anchors, rest) ← flowPair fuel anchors ts
      let (ps, r) ← flowPairs fuel false anchors rest
      some (p :: ps, r)
    | _, _ => none

/-- A pair of a flow mapping; without the mark of a key there is no value. -/
def flowPair : (fuel : Nat) → Anchors → List Token → Option ((Node × Node) × Rest)
  | 0, _, _ => none
  | fuel + 1, anchors, ts =>
    match ts with
    | .key :: rest => do
      let stops : Token → Bool := fun t => t == .value || t == .flowEntry || t == .flowMappingEnd
      let (k, anchors, rest) ← readOr fuel stops .flow anchors rest
      let (v, anchors, rest) ← flowValueOf fuel (· == .flowMappingEnd) anchors rest
      some ((k, v), anchors, rest)
    | ts => do
      let (k, anchors, rest) ← read fuel .flow anchors ts
      some ((k, .empty none), anchors, rest)

end

/-- What the directives in front say of handles, and the tokens behind them. The version is told
once at most, and so is each handle. -/
def directives : (told : Bool) → (handles : List (String × String)) → List Token →
    Option (List (String × String) × List Token)
  | told, handles, .version major minor :: rest =>
    if told || major ≠ 1 || (minor ≠ 1 && minor ≠ 2) then none else directives true handles rest
  | told, handles, .handle name front :: rest =>
    if handles.any (·.1 == name) then none else directives told ((name, front) :: handles) rest
  | _, handles, rest => some (handles, rest)

def expand (handles : List (String × String)) : Token → Token
  | .tag handle suffix => match handles.lookup handle with
    | some front => .tag "" (front ++ suffix)
    | none => .tag handle suffix
  | t => t

/-- The one document of a stream of tokens. Directives need the mark of a document behind them. -/
def ofTokens? (ts : List Token) : Option Node := do
  let fuel := 8 * ts.length + 8
  let (handles, body) ← directives false [] ts
  let (n, _, rest) ← match body.map (expand handles) with
    | .documentStart :: rest =>
      readOr fuel (fun t => t == .documentStart || t == .documentEnd) .block [] rest
    | rest => if body.length = ts.length then read fuel .block [] rest else none
  if rest.all (· == .documentEnd) then some n else none

mutual

/-- The number of collections around the innermost node. -/
def depth : Node → Nat
  | .scalar _ _ _ => 0
  | .sequence _ items => depthOfItems items + 1
  | .mapping _ pairs => depthOfPairs pairs + 1

def depthOfItems : List Node → Nat
  | [] => 0
  | n :: ns => max (depth n) (depthOfItems ns)

def depthOfPairs : List (Node × Node) → Nat
  | [] => 0
  | (k, v) :: ps => max (max (depth k) (depth v)) (depthOfPairs ps)

end

end Node

/-- The document that a text holds; collections nest at most 128 levels deep. -/
def read (text : String) : Option Node := do
  let n ← Node.ofTokens? (← tokens text.toList)
  if n.depth ≤ 128 then some n else none

end PlaybookEngine.Yaml
