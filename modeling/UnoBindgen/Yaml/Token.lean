import UnoBindgen.Yaml.Scalar

/-!
# Tokens of YAML texts

The layout of a YAML text is turned into tokens first: indentation becomes the start and the end
of block collections, and a value that turns out to be the key of a mapping gets its key token
in front of it afterwards.  `tokenize` gives all tokens up to the end of the text or up to the
first problem.
-/

namespace UnoBindgen.Yaml

/-- A token. -/
inductive Token where
  | streamEnd
  | versionDirective (major minor : Nat)
  | tagDirective (handle initial : Text)
  | documentStart
  | documentEnd
  | blockSequenceStart
  | blockMappingStart
  | blockEnd
  | flowSequenceStart
  | flowSequenceEnd
  | flowMappingStart
  | flowMappingEnd
  | blockEntry
  | flowEntry
  | key
  | value
  | alias (name : Text)
  | anchor (name : Text)
  | tag (handle suffix : Text)
  | scalar (content : Text) (plain : Bool)
  deriving DecidableEq, Repr

/-- A place that may turn out to be the start of a key. -/
structure KeyCandidate where
  /-- A key has to stand here, because the column is that of the surrounding mapping. -/
  required : Bool
  /-- How many tokens precede it. -/
  position : Nat
  mark : Mark
  deriving DecidableEq, Repr

/-- The state of turning a text into tokens. -/
structure Lexing where
  cursor : Cursor
  tokens : Array Token
  /-- The column of the innermost block collection, or minus one outside of all. -/
  indent : Int
  /-- The columns of the collections around it, innermost first. -/
  outerIndents : List Int
  /-- The key candidate of the current level. -/
  candidate : Option KeyCandidate
  /-- The key candidates of the levels around the open flow collections, innermost first. -/
  outerCandidates : List (Option KeyCandidate)
  keyAllowed : Bool

/-- The outcome of a step: the tokens gathered so far are kept beside a problem. -/
abbrev LexResult := Except (Array Token × Problem) Lexing

/-- The deepest nesting of collections. -/
def maxDepth : Nat := 10000

namespace Lexing

/-- The start of a text. -/
def start (text : Text) : Lexing where
  cursor := Cursor.ofText text
  tokens := #[]
  indent := -1
  outerIndents := []
  candidate := none
  outerCandidates := []
  keyAllowed := true

/-- Give up. -/
def fail (state : Lexing) (problem : Problem) : LexResult :=
  .error (state.tokens, problem)

/-- Carry a reader's problem over. -/
def lift {α : Type} (state : Lexing) : Except Problem α → Except (Array Token × Problem) α
  | .ok value => .ok value
  | .error problem => .error (state.tokens, problem)

/-- Whether a flow collection is open. -/
def inFlow (state : Lexing) : Bool :=
  !state.outerCandidates.isEmpty

/-- Append a token. -/
def emit (state : Lexing) (token : Token) : Lexing :=
  { state with tokens := state.tokens.push token }

/-- Insert a token at a position. -/
def insert (state : Lexing) (position : Nat) (token : Token) : Lexing :=
  { state with
    tokens :=
      (state.tokens.toList.take position ++ token :: state.tokens.toList.drop position).toArray }

/-- Move the cursor over characters of the current line. -/
def advance (state : Lexing) (count : Nat) : Lexing :=
  { state with cursor := state.cursor.advance count }

/-- Close the block collections that stand further right than a column. -/
def unroll (column : Int) : List Int → Lexing → Lexing
  | [], state => state
  | outer :: outers, state =>
    if state.indent > column then
      unroll column outers
        { state.emit .blockEnd with indent := outer, outerIndents := outers }
    else
      state

/-- Close the block collections that stand further right than a column; inside a flow
collection the layout has no meaning. -/
def closeBlocks (state : Lexing) (column : Int) : Lexing :=
  if state.inFlow then state else unroll column state.outerIndents state

/-- Open a block collection at a column, if none is open there. -/
def openBlock (state : Lexing) (column : Nat) (position : Nat) (token : Token) : LexResult :=
  if state.inFlow || state.indent ≥ column then
    .ok state
  else if state.outerIndents.length + 1 > maxDepth then
    state.fail .tooDeep
  else
    .ok { state.insert position token with
      indent := column
      outerIndents := state.indent :: state.outerIndents }

/-- Give up the key candidate of the current level, unless it has to be a key. -/
def dropCandidate (state : Lexing) : LexResult :=
  match state.candidate with
  | some candidate =>
    if candidate.required then state.fail .missingColon else .ok { state with candidate := none }
  | none => .ok state

/-- Note the current place as a possible start of a key. -/
def noteCandidate (state : Lexing) : LexResult := do
  if state.keyAllowed then
    let dropped ← state.dropCandidate
    return { dropped with
      candidate := some {
        required := !state.inFlow && state.indent == (state.cursor.mark.column : Int)
        position := state.tokens.size
        mark := state.cursor.mark } }
  else
    return state

/-- The key candidate of the current level, if it still can be a key: a key is short and stays on
its line. -/
def liveCandidate? (state : Lexing) : Except (Array Token × Problem) (Option KeyCandidate) :=
  match state.candidate with
  | none => .ok none
  | some candidate =>
    if
        candidate.mark.line < state.cursor.mark.line ||
          candidate.mark.index + 1024 < state.cursor.mark.index then
      if candidate.required then .error (state.tokens, .missingColon) else .ok none
    else
      .ok (some candidate)

/-- Close everything at the end of a document. -/
def closeDocument (state : Lexing) : LexResult := do
  let closed ← (state.closeBlocks (-1)).dropCandidate
  return { closed with keyAllowed := false }

/-! ## One token at a time -/

/-- A mark that begins or ends a document. -/
def documentMark (state : Lexing) (token : Token) : LexResult := do
  let closed ← state.closeDocument
  return (closed.advance 3).emit token

/-- The start of a flow collection. -/
def flowStart (state : Lexing) (token : Token) : LexResult := do
  let noted ← state.noteCandidate
  if noted.outerCandidates.length + 1 > maxDepth then
    noted.fail .tooDeep
  else
    return { (noted.advance 1).emit token with
      candidate := none
      outerCandidates := noted.candidate :: noted.outerCandidates
      keyAllowed := true }

/-- The end of a flow collection. -/
def flowEnd (state : Lexing) (token : Token) : LexResult := do
  let dropped ← state.dropCandidate
  let ended := { (dropped.advance 1).emit token with keyAllowed := false }
  match ended.outerCandidates with
  | [] => return ended
  | candidate :: outers => return { ended with candidate := candidate, outerCandidates := outers }

/-- A comma between the entries of a flow collection. -/
def flowEntry (state : Lexing) : LexResult := do
  let dropped ← state.dropCandidate
  return { (dropped.advance 1).emit .flowEntry with keyAllowed := true }

/-- A dash in front of the entry of a block sequence. -/
def blockEntry (state : Lexing) : LexResult := do
  let opened ←
    if state.inFlow then .ok state
    else if !state.keyAllowed then state.fail .misplacedEntry
    else state.openBlock state.cursor.mark.column state.tokens.size .blockSequenceStart
  let dropped ← opened.dropCandidate
  return { (dropped.advance 1).emit .blockEntry with keyAllowed := true }

/-- A question mark in front of a key. -/
def explicitKey (state : Lexing) : LexResult := do
  let opened ←
    if state.inFlow then .ok state
    else if !state.keyAllowed then state.fail .misplacedKey
    else state.openBlock state.cursor.mark.column state.tokens.size .blockMappingStart
  let dropped ← opened.dropCandidate
  return { (dropped.advance 1).emit .key with keyAllowed := !state.inFlow }

/-- A colon in front of a value.  If a key candidate is alive, it was a key. -/
def valueMark (state : Lexing) : LexResult := do
  match ← state.liveCandidate? with
  | some candidate =>
    let keyed := state.insert candidate.position .key
    let opened ←
      keyed.openBlock candidate.mark.column candidate.position .blockMappingStart
    return { (opened.advance 1).emit .value with candidate := none, keyAllowed := false }
  | none =>
    let opened ←
      if state.inFlow then .ok state
      else if !state.keyAllowed then state.fail .misplacedValue
      else state.openBlock state.cursor.mark.column state.tokens.size .blockMappingStart
    return { (opened.advance 1).emit .value with candidate := none, keyAllowed := !state.inFlow }

/-- An anchor or an alias. -/
def namedMark (state : Lexing) (token : Text → Token) : LexResult := do
  let noted ← state.noteCandidate
  let inside := noted.cursor.advance 1
  let name := inside.rest.takeWhile isNameCharacter
  let after := inside.advanceWhile isNameCharacter
  let ended :=
    match after.rest with
    | [] => true
    | character :: _ =>
      atWordEnd after.rest ||
        ['?', ':', ',', ']', '\x7d', '%', '@', Char.ofNat 0x60].contains character
  if name.isEmpty || !ended then
    noted.fail .malformedAnchor
  else
    return { noted.emit (token name) with cursor := after, keyAllowed := false }

/-- A plain scalar. -/
def plainScalar (state : Lexing) : LexResult := do
  let noted ← state.noteCandidate
  let scalar ← noted.lift
    (readPlain state.inFlow (state.indent + 1).toNat true Fold.start state.cursor.mark
      state.cursor.rest)
  return { noted.emit (.scalar scalar.content true) with
    cursor := scalar.after
    keyAllowed := scalar.endedLine }

/-- A quoted scalar. -/
def quotedScalar (state : Lexing) (double : Bool) : LexResult := do
  let noted ← state.noteCandidate
  let inside := state.cursor.advance 1
  let scalar ← noted.lift (readQuoted double .content Fold.start inside.mark inside.rest)
  return { noted.emit (.scalar scalar.content false) with
    cursor := scalar.after
    keyAllowed := false }

/-- A block scalar. -/
def blockScalar (state : Lexing) (literal : Bool) : LexResult := do
  let dropped ← state.dropCandidate
  let inside := state.cursor.advance 1
  let (header, rest) ← dropped.lift (readBlockHeader literal inside.rest)
  let behindHeader := inside.advance (inside.rest.length - rest.length)
  let behindSpacing := behindHeader.advanceWhile Text.isSpacing
  let behindComment :=
    match behindSpacing.rest with
    | '#' :: _ => behindSpacing.advanceToLineEnd
    | _ => behindSpacing
  if !atLineEnd behindComment.rest then
    dropped.fail .malformedBlockHeader
  else
    let below := behindComment.advanceLine
    let indent :=
      if header.increment == 0 then 0 else (max state.indent 0).toNat + header.increment
    let scalar ← dropped.lift
      (readBlock header (state.indent + 1).toNat false ⟨[], [], [], false, indent, 0⟩
        below.mark below.rest)
    return { dropped.emit (.scalar scalar.content false) with
      cursor := scalar.after
      keyAllowed := true }

end Lexing

/-! ## Tags and directives -/

/-- Add the bits of `count` continuation octets, each written as a percent sign and two
hexadecimal digits, to the value of a character. -/
def readOctets : Nat → Nat → Text → Option (Nat × Text)
  | 0, value, text => some (value, text)
  | count + 1, value, '%' :: high :: low :: rest =>
    match Text.hexValue? high, Text.hexValue? low with
    | some high, some low =>
      if high / 4 == 2 then
        readOctets count (64 * value + 16 * (high % 4) + low) rest
      else
        none
    | _, _ => none
  | _ + 1, _, _ => none

/-- Read one character that is written as escaped octets. -/
def readEscapedCharacter : Text → Option (Char × Text)
  | '%' :: high :: low :: rest =>
    match Text.hexValue? high, Text.hexValue? low with
    | some high, some low =>
      let octet := 16 * high + low
      let read :=
        if octet < 0x80 then some (octet, rest)
        else if octet / 32 == 6 then readOctets 1 (octet % 32) rest
        else if octet / 16 == 14 then readOctets 2 (octet % 16) rest
        else if octet / 8 == 30 then readOctets 3 (octet % 8) rest
        else none
      read.map fun (code, rest) => (Char.ofNat code, rest)
    | _, _ => none
  | _ => none

/-- The characters of tags. -/
def isTagCharacter (character : Char) : Bool :=
  isNameCharacter character ||
    [';', '/', '?', ':', '@', '&', '=', '+', '$', ',', '.', '!', '~', '*', '\'', '(', ')', '[',
      ']', '%'].contains character

/-- Read the characters of a tag.  The first argument bounds the number of steps; a text never
needs more steps than it has characters. -/
def readTagText : Nat → Text → Option (Text × Text)
  | 0, text => some ([], text)
  | _, [] => some ([], [])
  | steps + 1, character :: rest =>
    if character == '%' then do
      let (meant, rest) ← readEscapedCharacter (character :: rest)
      let (tail, rest) ← readTagText steps rest
      return (meant :: tail, rest)
    else if isTagCharacter character then do
      let (tail, rest) ← readTagText steps rest
      return (character :: tail, rest)
    else
      some ([], character :: rest)

/-- Read a tag handle: an exclamation mark, a name, and a closing exclamation mark, of which the
last two may be missing. -/
def readHandle : Text → Option (Text × Text)
  | '!' :: rest =>
    let name := rest.takeWhile isNameCharacter
    match rest.dropWhile isNameCharacter with
    | '!' :: rest => some ('!' :: name ++ ['!'], rest)
    | rest => some ('!' :: name, rest)
  | _ => none

/-- Whether a handle is closed by a second exclamation mark. -/
def isClosedHandle (handle : Text) : Bool :=
  handle.length > 1 && handle.getLast? == some '!'

/-- Read a tag as a handle and a suffix.  A verbatim tag has no handle; neither has the lone
exclamation mark, which is its own suffix. -/
def readTag (text : Text) : Option ((Text × Text) × Text) :=
  match text with
  | '!' :: '<' :: rest => do
    let (suffix, rest) ← readTagText rest.length rest
    if suffix.isEmpty then none
    match rest with
    | '>' :: rest => some (([], suffix), rest)
    | _ => none
  | _ => do
    let (handle, rest) ← readHandle text
    let (suffix, rest) ← readTagText rest.length rest
    if isClosedHandle handle then
      if suffix.isEmpty then none
      some ((handle, suffix), rest)
    else
      let suffix := handle.drop 1 ++ suffix
      if suffix.isEmpty then some (([], ['!']), rest) else some ((['!'], suffix), rest)

/-- Read the number of a version: one or two digits. -/
def readVersionNumber (text : Text) : Option (Nat × Text) :=
  let digits := text.takeWhile Char.isDigit
  if digits.isEmpty || digits.length > 2 then
    none
  else
    some (digits.foldl (fun value digit => 10 * value + (digit.toNat - '0'.toNat)) 0,
      text.dropWhile Char.isDigit)

/-- Read a directive behind its percent sign, up to the end of its own part of the line. -/
def readDirective (text : Text) : Option (Token × Text) :=
  let name := text.takeWhile isNameCharacter
  let rest := text.dropWhile isNameCharacter
  if !atWordEnd rest then
    none
  else if name == ['Y', 'A', 'M', 'L'] then do
    let (major, rest) ← readVersionNumber (rest.dropWhile Text.isSpacing)
    match rest with
    | '.' :: rest =>
      let (minor, rest) ← readVersionNumber rest
      some (.versionDirective major minor, rest)
    | _ => none
  else if name == ['T', 'A', 'G'] then do
    let (handle, rest) ← readHandle (rest.dropWhile Text.isSpacing)
    if handle != ['!'] && !isClosedHandle handle then none
    match rest with
    | character :: _ =>
      if !Text.isSpacing character then none
      let rest := rest.dropWhile Text.isSpacing
      let (initial, rest) ← readTagText rest.length rest
      if initial.isEmpty || !atWordEnd rest then none
      some (.tagDirective handle initial, rest)
    | [] => none
  else
    none

namespace Lexing

/-- A tag. -/
def tagMark (state : Lexing) : LexResult := do
  let noted ← state.noteCandidate
  match readTag state.cursor.rest with
  | some ((handle, suffix), rest) =>
    if atWordEnd rest then
      return { (noted.advance (state.cursor.rest.length - rest.length)).emit
          (.tag handle suffix) with
        keyAllowed := false }
    else
      noted.fail .malformedTag
  | none => noted.fail .malformedTag

/-- A directive, with the rest of its line. -/
def directive (state : Lexing) : LexResult := do
  let closed ← state.closeDocument
  let inside := closed.cursor.advance 1
  match readDirective inside.rest with
  | some (token, rest) =>
    let behind :=
      (inside.advance (inside.rest.length - rest.length)).advanceWhile Text.isSpacing
    let behindComment :=
      match behind.rest with
      | '#' :: _ => behind.advanceToLineEnd
      | _ => behind
    if atLineEnd behindComment.rest then
      return { closed.emit token with cursor := behindComment.advanceLine }
    else
      closed.fail .malformedDirective
  | none => closed.fail .malformedDirective

/-- A token in the middle of a line. -/
def inlineToken (state : Lexing) (character : Char) (rest : Text) : LexResult :=
  if character == '[' then state.flowStart .flowSequenceStart
  else if character == '\x7b' then state.flowStart .flowMappingStart
  else if character == ']' then state.flowEnd .flowSequenceEnd
  else if character == '\x7d' then state.flowEnd .flowMappingEnd
  else if character == ',' then state.flowEntry
  else if character == '-' && atWordEnd rest then state.blockEntry
  else if character == '?' && (state.inFlow || atWordEnd rest) then state.explicitKey
  else if character == ':' && (state.inFlow || atWordEnd rest) then state.valueMark
  else if character == '*' then state.namedMark .alias
  else if character == '&' then state.namedMark .anchor
  else if character == '!' then state.tagMark
  else if character == '|' && !state.inFlow then state.blockScalar true
  else if character == '>' && !state.inFlow then state.blockScalar false
  else if character == '\'' then state.quotedScalar false
  else if character == '"' then state.quotedScalar true
  else if ['#', '|', '>', '%', '@', Char.ofNat 0x60].contains character then
    state.fail .unexpectedCharacter
  else if Text.isSpacing character || isBreak character then state.fail .unexpectedCharacter
  else state.plainScalar

/-- Whether a comment may follow the last token on its line.  The comment behind a dash belongs
to what follows, and a scalar may have read its line to the end. -/
def mayTrailComment (before after : Lexing) : Bool :=
  after.tokens.back? != some .blockEntry &&
    before.cursor.mark.line == after.cursor.mark.line

/-- The next token.  Beside the new state it is told whether the text is at its end. -/
def step (state : Lexing) : Except (Array Token × Problem) (Lexing × Bool) := do
  let (cursor, keyAllowed) :=
    skipGap state.inFlow .open state.keyAllowed state.cursor.mark state.cursor.rest
  let state := { state with cursor := cursor, keyAllowed := keyAllowed }
  let state := state.closeBlocks cursor.mark.column
  match cursor.rest with
  | [] =>
    let closed ← state.closeDocument
    return (closed.emit .streamEnd, true)
  | character :: rest =>
    if cursor.mark.column == 0 && character == '%' then
      return (← state.directive, false)
    else if cursor.mark.column == 0 && startsWithTriple '-' cursor.rest then
      return (← state.documentMark .documentStart, false)
    else if cursor.mark.column == 0 && startsWithTriple '.' cursor.rest then
      return (← state.documentMark .documentEnd, false)
    else
      let next ← state.inlineToken character rest
      if mayTrailComment state next then
        return ({ next with cursor := next.cursor.advanceOverComment }, false)
      else
        return (next, false)

/-- All tokens, up to the end or the first problem.  Every token but the last takes at least one
character, so the length of the text bounds the number of steps. -/
def run : Nat → Lexing → Array Token × Option Problem
  | 0, state => (state.tokens, none)
  | steps + 1, state =>
    match state.step with
    | .error (tokens, problem) => (tokens, some problem)
    | .ok (next, true) => (next.tokens, none)
    | .ok (next, false) => run steps next

end Lexing

/-- Whether a character may stand in a YAML text. -/
def isAllowed (character : Char) : Bool :=
  let code := character.toNat
  code == 0x09 || code == 0x0a || code == 0x0d || (0x20 ≤ code && code ≤ 0x7e) || code == 0x85 ||
    (0xa0 ≤ code && code ≤ 0xfffd) || 0x10000 ≤ code

/-- A byte order mark at the start of a text says nothing. -/
def dropByteOrderMark : Text → Text
  | character :: rest => if character.toNat == 0xfeff then rest else character :: rest
  | [] => []

/-- The tokens of a text, up to its end or the first problem. -/
def tokenize (text : Text) : List Token × Option Problem :=
  let text := dropByteOrderMark text
  if text.all isAllowed then
    let (tokens, problem) := (Lexing.start text).run (text.length + 1)
    (tokens.toList, problem)
  else
    ([], some .controlCharacter)

end UnoBindgen.Yaml
