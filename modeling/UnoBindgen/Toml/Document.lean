import UnoBindgen.Text.Shortest
import UnoBindgen.Toml.Literal

/-!
# TOML documents

A text is a list of statements: headers that open a table or one more table of an array, and
entries that give a key of the open table its value.  The statements are put together into one
table.  A key gets its value once, and a table is opened once; the tables that a header or a
dotted key passes on its way come into being by themselves.
-/

namespace UnoBindgen.Toml

/-- A value. -/
inductive Value where
  | text (content : Text)
  | integer (value : Int)
  /-- A fraction in its canonical form. -/
  | fraction (value : Text.Decimal)
  | infinity (negative : Bool)
  | notANumber
  | truth (value : Bool)
  | moment (content : Text)
  | array (items : List Value)
  | table (entries : List (Text × Value))
  deriving Repr

/-- A table: its keys and values in the order in which they came. -/
abbrev Table := List (Text × Value)

/-- A line of a document. -/
inductive Statement where
  | openTable (path : KeyPath)
  | openArrayItem (path : KeyPath)
  | entry (path : KeyPath) (value : Literal)
  deriving Repr

/-! ## Statements of a text -/

/-- Read the key of a header up to its closing brackets. -/
def readHeader (edition : Edition) (closing : Text) (text : Text) :
    Except Problem (KeyPath × Text) := do
  let start := dropSpacing text
  let (path, rest) ← readKey edition (start.length + 1) start
  match rest.dropInitial? closing with
  | some rest => return (path, rest)
  | none => .error .malformedKey

/-- Read a statement at the start of a line. -/
def readStatement (edition : Edition) (text : Text) : Except Problem (Statement × Text) := do
  match text with
  | '[' :: '[' :: rest =>
    let (path, rest) ← readHeader edition [']', ']'] rest
    return (.openArrayItem path, rest)
  | '[' :: rest =>
    let (path, rest) ← readHeader edition [']'] rest
    return (.openTable path, rest)
  | _ =>
    let (path, rest) ← readKey edition (text.length + 1) text
    match rest with
    | '=' :: rest =>
      let value := dropSpacing rest
      let (value, rest) ← readValue edition (value.length + 1) value
      return (.entry path value, rest)
    | _ => .error .malformedKey

/-- Drop the rest of a line behind a statement: blanks, a comment and the line break. -/
def dropLineEnd (text : Text) : Except Problem Text := do
  let rest ←
    match dropSpacing text with
    | '#' :: rest => dropComment rest
    | rest => .ok rest
  match rest with
  | [] => return []
  | '\n' :: rest => return rest
  | '\r' :: '\n' :: rest => return rest
  | _ => .error .unexpectedCharacter

/-- Read statements to the end of the text.  The first argument bounds their number. -/
def readStatements (edition : Edition) : Nat → Text → Except Problem (List Statement)
  | 0, _ => .ok []
  | steps + 1, text => do
    match ← dropLayout (text.length + 1) text with
    | [] => return []
    | start =>
      let (statement, rest) ← readStatement edition start
      let rest ← dropLineEnd rest
      return statement :: (← readStatements edition steps rest)

/-- The statements of a text.  The newer edition passes over a byte order mark in front. -/
def statements (edition : Edition) (text : Text) : Except Problem (List Statement) :=
  let text :=
    match text with
    | first :: rest =>
      if first.toNat == 0xfeff && edition == .newer then rest else text
    | [] => text
  readStatements edition (text.length + 1) text

/-! ## The table they describe -/

/-- How a table came into being. -/
inductive Origin where
  /-- A header passed it on its way. -/
  | passed
  /-- A header opened it. -/
  | opened
  /-- A dotted key passed it on its way. -/
  | dotted
  deriving DecidableEq, Repr

/-- A table under construction. -/
inductive Draft where
  | value (value : Value)
  | table (origin : Origin) (entries : List (Text × Draft))
  /-- The tables of an array, the latest first. -/
  | tables (items : List (List (Text × Draft)))
  deriving Repr

/-- The entries of a table under construction. -/
abbrev Drafts := List (Text × Draft)

/-- Replace the draft of a key, or add it at the end. -/
def putDraft (entries : Drafts) (key : Text) (draft : Draft) : Drafts :=
  if entries.any fun entry => entry.1 == key then
    entries.map fun entry => if entry.1 == key then (key, draft) else entry
  else
    entries ++ [(key, draft)]

/-- Change the entries of the table at the end of a path that a header names all but the last
part of. -/
def passTables (change : Drafts → Except Problem Drafts) :
    KeyPath → Drafts → Except Problem Drafts
  | [], entries => change entries
  | key :: path, entries =>
    match entries.lookup key with
    | none => do
      let inner ← passTables change path []
      return putDraft entries key (.table .passed inner)
    | some (.table origin inner) => do
      let inner ← passTables change path inner
      return putDraft entries key (.table origin inner)
    | some (.tables (latest :: earlier)) => do
      let latest ← passTables change path latest
      return putDraft entries key (.tables (latest :: earlier))
    | some _ => .error .alreadyDefined

/-- Open a table that no statement has opened before. -/
def openTable (key : Text) (entries : Drafts) : Except Problem Drafts :=
  match entries.lookup key with
  | none => .ok (putDraft entries key (.table .opened []))
  | some (.table .passed inner) => .ok (putDraft entries key (.table .opened inner))
  | some _ => .error .alreadyDefined

/-- Open one more table of an array. -/
def openArrayItem (key : Text) (entries : Drafts) : Except Problem Drafts :=
  match entries.lookup key with
  | none => .ok (putDraft entries key (.tables [[]]))
  | some (.tables items) => .ok (putDraft entries key (.tables ([] :: items)))
  | some _ => .error .alreadyDefined

/-- Give a key its value, through the tables that a dotted key may pass. -/
def putEntry (value : Value) : KeyPath → Drafts → Except Problem Drafts
  | [], _ => .error .malformedKey
  | [key], entries =>
    match entries.lookup key with
    | none => .ok (putDraft entries key (.value value))
    | some _ => .error .alreadyDefined
  | key :: path, entries =>
    match entries.lookup key with
    | none => do
      let inner ← putEntry value path []
      return putDraft entries key (.table .dotted inner)
    | some (.table .opened _) => .error .alreadyDefined
    | some (.table origin inner) => do
      let inner ← putEntry value path inner
      return putDraft entries key (.table origin inner)
    | some _ => .error .alreadyDefined

mutual

/-- The finished value of a draft. -/
def Draft.finish : Draft → Value
  | .value value => value
  | .table _ entries => .table (finishDrafts entries)
  | .tables items => .array (finishItems items).reverse

/-- The finished entries of a table. -/
def finishDrafts : List (Text × Draft) → List (Text × Value)
  | [] => []
  | (key, draft) :: rest => (key, draft.finish) :: finishDrafts rest

/-- The finished tables of an array. -/
def finishItems : List (List (Text × Draft)) → List Value
  | [] => []
  | item :: rest => .table (finishDrafts item) :: finishItems rest

end

mutual

/-- The value that a literal stands for.  The entries of a table in braces follow the rules of
entries elsewhere. -/
def Literal.value : Literal → Except Problem Value
  | .text content => .ok (.text content)
  | .integer value => .ok (.integer value)
  | .fraction value => .ok (.fraction value.canonical)
  | .infinity negative => .ok (.infinity negative)
  | .notANumber => .ok .notANumber
  | .truth value => .ok (.truth value)
  | .moment content => .ok (.moment content)
  | .array items => do return .array (← itemValues items)
  | .inlineTable entries => do return .table (finishDrafts (← entryDrafts [] entries))

/-- The values of the items of an array. -/
def itemValues : List Literal → Except Problem (List Value)
  | [] => .ok []
  | item :: rest => do
    let value ← item.value
    return value :: (← itemValues rest)

/-- Put the entries of a table in braces together. -/
def entryDrafts (drafts : Drafts) : List (KeyPath × Literal) → Except Problem Drafts
  | [] => .ok drafts
  | (path, literal) :: rest => do
    let value ← literal.value
    entryDrafts (← putEntry value path drafts) rest

end

/-- Put a statement into effect, with the path of the open table. -/
def apply (state : Drafts × KeyPath) (statement : Statement) :
    Except Problem (Drafts × KeyPath) := do
  let (drafts, opened) := state
  match statement with
  | .openTable path =>
    return (← passTables (openTable (path.getLastD [])) path.dropLast drafts, path)
  | .openArrayItem path =>
    return (← passTables (openArrayItem (path.getLastD [])) path.dropLast drafts, path)
  | .entry path literal =>
    let value ← literal.value
    return (← passTables (putEntry value path) opened drafts, opened)

/-- The table that statements describe. -/
def tableOf (statements : List Statement) : Except Problem Table := do
  let (drafts, _) ← statements.foldlM apply ([], [])
  return finishDrafts drafts

/-- The table that a text describes. -/
def parse (edition : Edition) (text : Text) : Except Problem Table := do
  tableOf (← statements edition text)

/-! ## The keys that are written -/

mutual

/-- The keys written inside a value, each with the path in front of it. -/
def Literal.writtenKeys (outer : KeyPath) : Literal → List KeyPath
  | .array items => itemKeys outer items
  | .inlineTable entries => entryKeys outer entries
  | _ => []

/-- The keys written inside the items of an array. -/
def itemKeys (outer : KeyPath) : List Literal → List KeyPath
  | [] => []
  | item :: rest => item.writtenKeys outer ++ itemKeys outer rest

/-- The keys of the entries of a table in braces, each before those inside its value. -/
def entryKeys (outer : KeyPath) : List (KeyPath × Literal) → List KeyPath
  | [] => []
  | (path, literal) :: rest =>
    (outer ++ path) :: literal.writtenKeys (outer ++ path) ++ entryKeys outer rest

end

/-- The keys that statements write, in order, behind the header of a table with a given path. -/
def writtenKeys : KeyPath → List Statement → List KeyPath
  | _, [] => []
  | _, .openTable path :: rest => path :: writtenKeys path rest
  | _, .openArrayItem path :: rest => path :: writtenKeys path rest
  | opened, .entry path literal :: rest =>
    (opened ++ path) :: literal.writtenKeys (opened ++ path) ++ writtenKeys opened rest

/-- A key part as it is shown: between quotation marks unless it is bare. -/
def showKeyPart (part : Text) : Text :=
  if !part.isEmpty && part.all isBareKey then
    part
  else
    let hexDigit := fun value => (Nat.toDigits 16 value)
    let shown := part.flatMap fun character =>
      if character == '"' then ['\\', '"']
      else if character == '\\' then ['\\', '\\']
      else if character == '\x08' then ['\\', 'b']
      else if character == '\t' then ['\\', 't']
      else if character == '\n' then ['\\', 'n']
      else if character == '\x0c' then ['\\', 'f']
      else if character == '\r' then ['\\', 'r']
      else if isControl character then
        ['\\', 'u', '0', '0'] ++ hexDigit (character.toNat / 16) ++
          hexDigit (character.toNat % 16)
      else [character]
    '"' :: shown ++ ['"']

/-- A dotted key as it is shown. -/
def showKey (path : KeyPath) : Text :=
  Text.join ['.'] (path.map showKeyPart)

end UnoBindgen.Toml
