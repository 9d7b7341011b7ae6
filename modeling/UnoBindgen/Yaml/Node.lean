import UnoBindgen.Yaml.Token

/-!
# Nodes of YAML documents

The tokens of a document describe a tree of scalars, sequences and mappings.  Anchors give parts
of the tree a name under which later parts refer to them.  `Document.read` reads the first
document of a text.
-/

namespace UnoBindgen.Yaml

/-- A node of a document. -/
inductive Node where
  /-- A scalar with its tag, which is empty when none is written. -/
  | scalar (tag : Text) (content : Text) (plain : Bool)
  | sequence (items : List Node)
  | mapping (entries : List (Node × Node))
  /-- A reference to an earlier node. -/
  | alias (name : Text) (target : Node)
  /-- A reference to a node from inside of it. -/
  | cycle (name : Text)
  deriving Repr

/-- The scalar that stands where nothing is written. -/
def Node.empty : Node := .scalar [] [] true

/-- The tags that a document may abbreviate: each handle with what it stands for. -/
abbrev TagHandles := List (Text × Text)

/-- The handles that need no directive. -/
def defaultHandles : TagHandles :=
  [(['!'], ['!']), (['!', '!'], "tag:yaml.org,2002:".toList)]

/-- Tags of the standard are written with two exclamation marks. -/
def shortTag (tag : Text) : Text :=
  match tag.dropInitial? "tag:yaml.org,2002:" with
  | some rest => '!' :: '!' :: rest
  | none => tag

/-- The state of reading a document. -/
structure Reading where
  tokens : List Token
  /-- What stopped the tokens from going on. -/
  problem : Option Problem
  /-- The named nodes, the latest first; a node is missing while it is being read. -/
  anchors : List (Text × Option Node)
  handles : TagHandles

/-- A step of reading a document. -/
abbrev Reader := StateT Reading (Except Problem)

namespace Reader

/-- The next token. -/
def peek : Reader Token := do
  let state ← get
  match state.tokens, state.problem with
  | token :: _, _ => return token
  | [], some problem => throw problem
  | [], none => return .streamEnd

/-- Move over the next token. -/
def skip : Reader Unit :=
  modify fun state => { state with tokens := state.tokens.drop 1 }

/-- Give a node its name, or announce it when the node is still being read. -/
def bind (anchor : Text) (node : Option Node) : Reader Unit :=
  if anchor.isEmpty then
    return ()
  else
    modify fun state => { state with anchors := (anchor, node) :: state.anchors }

/-- The node that a name refers to. -/
def refer (name : Text) : Reader Node := do
  match (← get).anchors.lookup name with
  | some (some node) => return .alias name node
  | some none => return .cycle name
  | none => throw .unknownAnchor

/-- The anchor and the tag in front of a node, in either order. -/
def properties : Reader (Text × Option (Text × Text)) := do
  match ← peek with
  | .anchor name =>
    skip
    match ← peek with
    | .tag handle suffix => skip; return (name, some (handle, suffix))
    | _ => return (name, none)
  | .tag handle suffix =>
    skip
    match ← peek with
    | .anchor name => skip; return (name, some (handle, suffix))
    | _ => return ([], some (handle, suffix))
  | _ => return ([], none)

/-- Spell a tag out. -/
def spellTag : Option (Text × Text) → Reader Text
  | none => return []
  | some ([], suffix) => return suffix
  | some (handle, suffix) => do
    match (← get).handles.lookup handle with
    | some initial => return initial ++ suffix
    | none => throw .undefinedTagHandle

/-- A node of which only the anchor and the tag are written. -/
def bare (anchor tag : Text) : Reader Node := do
  if anchor.isEmpty && tag.isEmpty then
    throw .unexpectedToken
  let scalar := Node.scalar (shortTag (if tag == ['!'] then [] else tag)) [] true
  bind anchor (some scalar)
  return scalar

mutual

/-- Read a node.  In block context it may be a block collection, and behind a key also a sequence
that is not indented.  The first argument of all readers bounds the number of steps: every step
takes a token at least every second time. -/
def node : Nat → Bool → Bool → Reader Node
  | 0, _, _ => throw .unexpectedToken
  | steps + 1, block, unindented => do
    match ← peek with
    | .alias name => skip; refer name
    | _ =>
      let (anchor, written) ← properties
      let tag ← spellTag written
      match ← peek with
      | .scalar content plain =>
        skip
        let scalar := Node.scalar (shortTag (if tag == ['!'] then [] else tag)) content plain
        bind anchor (some scalar)
        return scalar
      | .flowSequenceStart =>
        skip
        bind anchor none
        let sequence := Node.sequence (← flowItems steps true)
        bind anchor (some sequence)
        return sequence
      | .flowMappingStart =>
        skip
        bind anchor none
        let mapping := Node.mapping (← flowEntries steps true)
        bind anchor (some mapping)
        return mapping
      | .blockEntry =>
        if unindented then
          bind anchor none
          let sequence := Node.sequence (← unindentedItems steps)
          bind anchor (some sequence)
          return sequence
        else
          bare anchor tag
      | .blockSequenceStart =>
        if block then
          skip
          bind anchor none
          let sequence := Node.sequence (← blockItems steps)
          bind anchor (some sequence)
          return sequence
        else
          bare anchor tag
      | .blockMappingStart =>
        if block then
          skip
          bind anchor none
          let mapping := Node.mapping (← blockEntries steps)
          bind anchor (some mapping)
          return mapping
        else
          bare anchor tag
      | _ => bare anchor tag

/-- The entries of a block sequence. -/
def blockItems : Nat → Reader (List Node)
  | 0 => throw .unexpectedToken
  | steps + 1 => do
    match ← peek with
    | .blockEntry =>
      skip
      let item ←
        match ← peek with
        | .blockEntry | .blockEnd => pure Node.empty
        | _ => node steps true false
      return item :: (← blockItems steps)
    | .blockEnd => skip; return []
    | _ => throw .unexpectedToken

/-- The entries of a sequence that is not indented. -/
def unindentedItems : Nat → Reader (List Node)
  | 0 => throw .unexpectedToken
  | steps + 1 => do
    match ← peek with
    | .blockEntry =>
      skip
      let item ←
        match ← peek with
        | .blockEntry | .key | .value | .blockEnd => pure Node.empty
        | _ => node steps true false
      return item :: (← unindentedItems steps)
    | _ => return []

/-- The entries of a block mapping. -/
def blockEntries : Nat → Reader (List (Node × Node))
  | 0 => throw .unexpectedToken
  | steps + 1 => do
    match ← peek with
    | .key =>
      skip
      let key ←
        match ← peek with
        | .key | .value | .blockEnd => pure Node.empty
        | _ => node steps true true
      let value ← blockValue steps
      return (key, value) :: (← blockEntries steps)
    | .blockEnd => skip; return []
    | _ => throw .unexpectedToken

/-- The value behind a key of a block mapping. -/
def blockValue : Nat → Reader Node
  | 0 => throw .unexpectedToken
  | steps + 1 => do
    match ← peek with
    | .value =>
      skip
      match ← peek with
      | .key | .value | .blockEnd => return Node.empty
      | _ => node steps true true
    | _ => return Node.empty

/-- The entries of a flow sequence; an entry with a colon is a mapping of one entry. -/
def flowItems : Nat → Bool → Reader (List Node)
  | 0, _ => throw .unexpectedToken
  | steps + 1, first => do
    match ← peek, first with
    | .flowSequenceEnd, _ => skip; return []
    | .flowEntry, false =>
      skip
      match ← peek with
      | .flowSequenceEnd => skip; return []
      | _ => flowItem steps
    | _, false => throw .unexpectedToken
    | _, true => flowItem steps

/-- An entry of a flow sequence, and the entries behind it. -/
def flowItem : Nat → Reader (List Node)
  | 0 => throw .unexpectedToken
  | steps + 1 => do
    match ← peek with
    | .key =>
      skip
      let key ←
        match ← peek with
        | .value | .flowEntry | .flowSequenceEnd => skip; pure Node.empty
        | _ => node steps false false
      let value ←
        match ← peek with
        | .value =>
          skip
          match ← peek with
          | .flowEntry | .flowSequenceEnd => pure Node.empty
          | _ => node steps false false
        | _ => pure Node.empty
      return .mapping [(key, value)] :: (← flowItems steps false)
    | _ =>
      let item ← node steps false false
      return item :: (← flowItems steps false)

/-- The entries of a flow mapping. -/
def flowEntries : Nat → Bool → Reader (List (Node × Node))
  | 0, _ => throw .unexpectedToken
  | steps + 1, first => do
    match ← peek, first with
    | .flowMappingEnd, _ => skip; return []
    | .flowEntry, false =>
      skip
      match ← peek with
      | .flowMappingEnd => skip; return []
      | _ => flowPair steps
    | _, false => throw .unexpectedToken
    | _, true => flowPair steps

/-- An entry of a flow mapping, and the entries behind it. -/
def flowPair : Nat → Reader (List (Node × Node))
  | 0 => throw .unexpectedToken
  | steps + 1 => do
    match ← peek with
    | .key =>
      skip
      let key ←
        match ← peek with
        | .value | .flowEntry | .flowMappingEnd => pure Node.empty
        | _ => node steps false false
      let value ←
        match ← peek with
        | .value =>
          skip
          match ← peek with
          | .flowEntry | .flowMappingEnd => pure Node.empty
          | _ => node steps false false
        | _ => pure Node.empty
      return (key, value) :: (← flowEntries steps false)
    | _ =>
      let key ← node steps false false
      return (key, Node.empty) :: (← flowEntries steps false)

end

/-- The directives in front of a document.  The version is the one that this reader knows, and
no directive is given twice. -/
def directives : Nat → Bool → TagHandles → Reader TagHandles
  | 0, _, _ => throw .unexpectedToken
  | steps + 1, versioned, handles => do
    match ← peek with
    | .versionDirective major minor =>
      if versioned then
        throw .repeatedDirective
      else if major != 1 || minor != 1 then
        throw .incompatibleVersion
      else
        skip
        directives steps true handles
    | .tagDirective handle initial =>
      if (handles.lookup handle).isSome then
        throw .repeatedDirective
      else
        skip
        directives steps versioned (handles ++ [(handle, initial)])
    | _ => return handles

/-- The root of a document behind its start. -/
def root (steps : Nat) (explicit : Bool) : Reader Node := do
  match ← peek, explicit with
  | .versionDirective _ _, true => return Node.empty
  | .tagDirective _ _, true => return Node.empty
  | .documentStart, true => return Node.empty
  | .documentEnd, true => return Node.empty
  | .streamEnd, true => return Node.empty
  | _, _ => node steps true false

/-- The end of a document is known once two more tokens behind it are. -/
def finish : Reader Unit := do
  let state ← get
  match state.problem with
  | some problem => if state.tokens.length < 3 then throw problem
  | none => return ()

/-- The first document, if there is one. -/
def document (steps : Nat) : Reader (Option Node) := do
  match ← peek with
  | .streamEnd => return none
  | first =>
    let explicit :=
      match first with
      | .versionDirective _ _ | .tagDirective _ _ | .documentStart => true
      | _ => false
    if explicit then
      let handles ← directives steps false []
      modify fun state => { state with handles := handles ++ defaultHandles }
      match ← peek with
      | .documentStart => skip
      | _ => throw .unexpectedToken
    let content ← root steps explicit
    finish
    return some content

end Reader

/-- The root of the first document of a text, if it holds one. -/
def readDocument (text : Text) : Except Problem (Option Node) :=
  let (tokens, problem) := tokenize text
  (Reader.document (3 * tokens.length + 8)).run' ⟨tokens, problem, [], defaultHandles⟩

end UnoBindgen.Yaml
