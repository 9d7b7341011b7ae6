import UnoBindgen.Text.Numeral
import UnoBindgen.Yaml.Cursor

/-!
# Scalars in YAML texts

A scalar is written plainly, between quotation marks, or as an indented block.  In the first two
forms the lines of a scalar are folded: a single line break becomes a space and further breaks
stay.  Each reader walks over the characters once and carries what it has not decided yet.
-/

namespace UnoBindgen.Yaml

/-- A scalar that was read: its content, the cursor behind it, and whether line breaks behind it
were read along with it. -/
structure ReadScalar where
  content : Text
  after : Cursor
  endedLine : Bool
  deriving DecidableEq, Repr

/-- Blanks and line breaks whose part in the content is still open.  Texts are kept reversed. -/
structure Fold where
  content : Text
  spacing : Text
  firstBreak : Option Char
  laterBreaks : Text
  onNewLine : Bool
  deriving DecidableEq, Repr

namespace Fold

/-- Nothing has been read. -/
def start : Fold := ⟨[], [], none, [], false⟩

/-- Read a blank; at the start of a line it is indentation. -/
def blank (fold : Fold) (character : Char) : Fold :=
  if fold.onNewLine then fold else { fold with spacing := character :: fold.spacing }

/-- Read a line break; blanks before it are dropped. -/
def lineBreak (fold : Fold) (character : Char) : Fold :=
  if fold.onNewLine then
    { fold with laterBreaks := breakContent character :: fold.laterBreaks }
  else
    { fold with spacing := [], firstBreak := some (breakContent character), onNewLine := true }

/-- Read a line break that is escaped, and so leaves no trace. -/
def escapedBreak (fold : Fold) : Fold :=
  { fold with onNewLine := true }

/-- Decide what the open blanks and breaks contribute. -/
def settle (fold : Fold) : Fold :=
  let joined :=
    if fold.onNewLine then
      match fold.firstBreak with
      | some '\n' =>
        if fold.laterBreaks.isEmpty then ' ' :: fold.content
        else fold.laterBreaks ++ fold.content
      | some separator => fold.laterBreaks ++ separator :: fold.content
      | none => fold.laterBreaks ++ fold.content
    else
      fold.spacing ++ fold.content
  ⟨joined, [], none, [], false⟩

/-- Read a character of the content. -/
def push (fold : Fold) (character : Char) : Fold :=
  { fold.settle with content := character :: fold.settle.content }

end Fold

/-! ## Plain scalars -/

/-- Whether a plain scalar ends before a character inside a word. -/
def endsPlain (inFlow : Bool) (character : Char) (rest : Text) : Bool :=
  (character == ':' && atWordEnd rest) ||
    (inFlow && (character == ',' || character == '?' || character == '[' || character == ']' ||
      character == '\x7b' || character == '\x7d'))

/-- Read a plain scalar.  It goes on over line breaks for as long as the lines are indented by
`indent` columns; `wordStart` says that a blank or the start of the scalar was just passed. -/
def readPlain
    (inFlow : Bool)
    (indent : Nat) :
    Bool → Fold → Mark → Text → Except Problem ReadScalar
  | _, fold, mark, [] => .ok ⟨fold.content.reverse, ⟨[], mark⟩, fold.onNewLine⟩
  | _, fold, mark, '\r' :: '\n' :: rest =>
    readPlain inFlow indent true (fold.lineBreak '\n') (mark.nextLine 2) rest
  | wordStart, fold, mark, character :: rest =>
    if Text.isSpacing character then
      if fold.onNewLine && mark.column < indent && character == '\t' then
        .error .unexpectedTab
      else
        readPlain inFlow indent true (fold.blank character) (mark.next 1) rest
    else if isBreak character then
      readPlain inFlow indent true (fold.lineBreak character) (mark.nextLine 1) rest
    else if
        wordStart &&
          ((!fold.content.isEmpty && !inFlow && mark.column < indent) ||
            atDocumentMark mark.column (character :: rest) || character == '#') then
      .ok ⟨fold.content.reverse, ⟨character :: rest, mark⟩, fold.onNewLine⟩
    else if endsPlain inFlow character rest then
      .ok ⟨fold.content.reverse, ⟨character :: rest, mark⟩, fold.onNewLine⟩
    else
      readPlain inFlow indent false (fold.push character) (mark.next 1) rest

/-! ## Quoted scalars -/

/-- What a one-letter escape stands for. -/
def simpleEscape? (character : Char) : Option Char :=
  if character == '0' then some (Char.ofNat 0)
  else if character == 'a' then some '\x07'
  else if character == 'b' then some '\x08'
  else if character == 't' || character == '\t' then some '\t'
  else if character == 'n' then some '\n'
  else if character == 'v' then some '\x0b'
  else if character == 'f' then some '\x0c'
  else if character == 'r' then some '\r'
  else if character == 'e' then some '\x1b'
  else if character == ' ' || character == '"' || character == '\'' || character == '\\' then
    some character
  else if character == 'N' then some (Char.ofNat 0x85)
  else if character == '_' then some (Char.ofNat 0xa0)
  else if character == 'L' then some (Char.ofNat 0x2028)
  else if character == 'P' then some (Char.ofNat 0x2029)
  else none

/-- How many hexadecimal digits an escape takes. -/
def escapeDigits? (character : Char) : Option Nat :=
  if character == 'x' then some 2
  else if character == 'u' then some 4
  else if character == 'U' then some 8
  else none

/-- Where the reader of a quoted scalar stands. -/
inductive QuotedState where
  | content
  | escape
  | code (missing : Nat) (value : Nat)

/-- Read a quoted scalar behind its opening mark, up to and including the closing one. -/
def readQuoted
    (double : Bool) :
    QuotedState → Fold → Mark → Text → Except Problem ReadScalar
  | _, _, _, [] => .error .unfinishedScalar
  | .content, fold, mark, '\'' :: '\'' :: rest =>
    if double then
      readQuoted double .content ((fold.push '\'').push '\'') (mark.next 2) rest
    else
      readQuoted double .content (fold.push '\'') (mark.next 2) rest
  | .content, fold, mark, '\r' :: '\n' :: rest =>
    readQuoted double .content (fold.lineBreak '\n') (mark.nextLine 2) rest
  | .content, fold, mark, character :: rest =>
    if Text.isSpacing character then
      readQuoted double .content (fold.blank character) (mark.next 1) rest
    else if isBreak character then
      readQuoted double .content (fold.lineBreak character) (mark.nextLine 1) rest
    else if atDocumentMark mark.column (character :: rest) then
      .error .unfinishedScalar
    else if character == (if double then '"' else '\'') then
      .ok ⟨fold.settle.content.reverse, ⟨rest, mark.next 1⟩, false⟩
    else if double && character == '\\' then
      readQuoted double .escape fold.settle (mark.next 1) rest
    else
      readQuoted double .content (fold.push character) (mark.next 1) rest
  | .escape, fold, mark, '\r' :: '\n' :: rest =>
    readQuoted double .content fold.escapedBreak (mark.nextLine 2) rest
  | .escape, fold, mark, character :: rest =>
    if isBreak character then
      readQuoted double .content fold.escapedBreak (mark.nextLine 1) rest
    else
      match simpleEscape? character, escapeDigits? character with
      | some meant, _ => readQuoted double .content (fold.push meant) (mark.next 1) rest
      | none, some digits => readQuoted double (.code digits 0) fold (mark.next 1) rest
      | none, none => .error .malformedEscape
  | .code missing value, fold, mark, character :: rest =>
    match Text.hexValue? character with
    | none => .error .malformedEscape
    | some digit =>
      let value := 16 * value + digit
      if missing > 1 then
        readQuoted double (.code (missing - 1) value) fold (mark.next 1) rest
      else if (0xd800 ≤ value && value ≤ 0xdfff) || value > 0x10ffff then
        .error .malformedEscape
      else
        readQuoted double .content (fold.push (Char.ofNat value)) (mark.next 1) rest

/-! ## Block scalars -/

/-- What happens to the line breaks at the end of a block scalar. -/
inductive Chomping where
  | strip
  | clip
  | keep
  deriving DecidableEq, Repr

/-- The header of a block scalar. -/
structure BlockHeader where
  literal : Bool
  chomping : Chomping
  /-- The indentation relative to the surrounding block; zero when it is to be found out. -/
  increment : Nat
  deriving DecidableEq, Repr

/-- The chomping that a character asks for. -/
def chomping? : Text → Option (Chomping × Text)
  | '+' :: rest => some (.keep, rest)
  | '-' :: rest => some (.strip, rest)
  | _ => none

/-- The indentation that a digit asks for, if there is one; it is not zero. -/
def increment? : Text → Except Problem (Option (Nat × Text))
  | character :: rest =>
    if character == '0' then .error .malformedBlockHeader
    else if character.isDigit then .ok (some (character.toNat - '0'.toNat, rest))
    else .ok none
  | [] => .ok none

/-- Read the indicators behind the mark of a block scalar, in either order. -/
def readBlockHeader (literal : Bool) (text : Text) : Except Problem (BlockHeader × Text) := do
  match chomping? text with
  | some (chomping, rest) =>
    match ← increment? rest with
    | some (increment, rest) => return (⟨literal, chomping, increment⟩, rest)
    | none => return (⟨literal, chomping, 0⟩, rest)
  | none =>
    match ← increment? text with
    | some (increment, rest) =>
      match chomping? rest with
      | some (chomping, rest) => return (⟨literal, chomping, increment⟩, rest)
      | none => return (⟨literal, .clip, increment⟩, rest)
    | none => return (⟨literal, .clip, 0⟩, text)

/-- The open parts of a block scalar.  Texts are kept reversed. -/
structure Block where
  content : Text
  leadingBreak : Text
  trailingBreaks : Text
  /-- Whether the line before started with a blank. -/
  afterBlank : Bool
  /-- The indentation of the content; zero until it is found out. -/
  indent : Nat
  /-- The widest indentation seen while it is being found out. -/
  widest : Nat
  deriving DecidableEq, Repr

namespace Block

/-- Settle the indentation at the first line that holds something. -/
def settleIndent (block : Block) (least : Nat) : Block :=
  if block.indent == 0 then { block with indent := max (max block.widest least) 1 } else block

/-- Start a line of content with a character. -/
def startLine (block : Block) (literal : Bool) (character : Char) : Block :=
  let blank := Text.isSpacing character
  let joined :=
    if !literal && !block.afterBlank && !blank && block.leadingBreak == ['\n'] then
      if block.trailingBreaks.isEmpty then ' ' :: block.content else block.content
    else
      block.leadingBreak ++ block.content
  { block with
    content := character :: (block.trailingBreaks ++ joined)
    leadingBreak := []
    trailingBreaks := []
    afterBlank := blank }

/-- The content, with its last line breaks as the chomping says. -/
def finish (block : Block) (chomping : Chomping) : Text :=
  let clipped :=
    if chomping == .strip then block.content else block.leadingBreak ++ block.content
  let kept := if chomping == .keep then block.trailingBreaks ++ clipped else clipped
  kept.reverse

end Block

/-- Read a block scalar behind its header line.  `least` is the least indentation that it can
have, and `inLine` says that a line of content has begun. -/
def readBlock
    (header : BlockHeader)
    (least : Nat) :
    Bool → Block → Mark → Text → Except Problem ReadScalar
  | _, block, mark, [] => .ok ⟨block.finish header.chomping, ⟨[], mark⟩, true⟩
  | true, block, mark, '\r' :: '\n' :: rest =>
    readBlock header least false { block with leadingBreak := ['\n'], widest := 0 }
      (mark.nextLine 2) rest
  | true, block, mark, character :: rest =>
    if isBreak character then
      readBlock header least false
        { block with leadingBreak := [breakContent character], widest := 0 }
        (mark.nextLine 1) rest
    else
      readBlock header least true { block with content := character :: block.content }
        (mark.next 1) rest
  | false, block, mark, '\r' :: '\n' :: rest =>
    readBlock header least false
      { block with
        trailingBreaks := '\n' :: block.trailingBreaks
        widest := max block.widest mark.column }
      (mark.nextLine 2) rest
  | false, block, mark, character :: rest =>
    let indenting := block.indent == 0 || mark.column < block.indent
    if indenting && character == ' ' then
      readBlock header least false block (mark.next 1) rest
    else if indenting && character == '\t' then
      .error .unexpectedTab
    else
      let block := { block with widest := max block.widest mark.column }
      if isBreak character then
        readBlock header least false
          { block with trailingBreaks := breakContent character :: block.trailingBreaks }
          (mark.nextLine 1) rest
      else
        let block := block.settleIndent least
        if mark.column == block.indent then
          readBlock header least true (block.startLine header.literal character) (mark.next 1)
            rest
        else
          .ok ⟨block.finish header.chomping, ⟨character :: rest, mark⟩, true⟩

end UnoBindgen.Yaml
