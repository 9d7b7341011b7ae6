import UnoBindgen.Text.Basic

/-!
# Reading positions in a YAML text

A cursor is the text that is still unread together with the place where it begins.  The layout of
a YAML text carries meaning, so lines and columns are counted along the way.
-/

namespace UnoBindgen.Yaml

/-- Why a YAML text has no meaning. -/
inductive Problem where
  | controlCharacter
  | unexpectedCharacter
  | unexpectedTab
  | missingColon
  | misplacedEntry
  | misplacedKey
  | misplacedValue
  | malformedDirective
  | malformedAnchor
  | malformedTag
  | malformedEscape
  | malformedBlockHeader
  | unfinishedScalar
  | tooDeep
  | repeatedDirective
  | incompatibleVersion
  | undefinedTagHandle
  | unexpectedToken
  | unknownAnchor
  | recursiveAnchor
  | mismatchedTag
  | repeatedKey
  | unknownKey
  | unexpectedShape
  | malformedMerge
  deriving DecidableEq, Repr

/-- The wording of a problem. -/
def Problem.text : Problem → Text
  | .controlCharacter => "control characters are not allowed"
  | .unexpectedCharacter => "found character that cannot start any token"
  | .unexpectedTab => "found a tab character where an indentation space is expected"
  | .missingColon => "could not find expected ':'"
  | .misplacedEntry => "block sequence entries are not allowed in this context"
  | .misplacedKey => "mapping keys are not allowed in this context"
  | .misplacedValue => "mapping values are not allowed in this context"
  | .malformedDirective => "malformed directive"
  | .malformedAnchor => "did not find expected alphabetic or numeric character"
  | .malformedTag => "malformed tag"
  | .malformedEscape => "malformed escape sequence"
  | .malformedBlockHeader => "malformed block scalar header"
  | .unfinishedScalar => "found unexpected end of a quoted scalar"
  | .tooDeep => "exceeded max depth of 10000"
  | .repeatedDirective => "found duplicate directive"
  | .incompatibleVersion => "found incompatible YAML document"
  | .undefinedTagHandle => "found undefined tag handle"
  | .unexpectedToken => "did not find expected node content"
  | .unknownAnchor => "unknown anchor referenced"
  | .recursiveAnchor => "anchor value contains itself"
  | .mismatchedTag => "cannot decode a scalar under its tag"
  | .repeatedKey => "mapping key already defined"
  | .unknownKey => "field not found"
  | .unexpectedShape => "cannot unmarshal a node of this shape"
  | .malformedMerge => "map merge requires map or sequence of maps as the value"

/-- A place in a text: how many characters, and how many lines, precede it, and how many
characters of its own line. -/
structure Mark where
  index : Nat
  line : Nat
  column : Nat
  deriving DecidableEq, Repr

/-- The place behind one more character of the same line. -/
def Mark.next (mark : Mark) (count : Nat) : Mark :=
  { mark with index := mark.index + count, column := mark.column + count }

/-- The start of the next line, behind a line break of so many characters. -/
def Mark.nextLine (mark : Mark) (count : Nat) : Mark :=
  ⟨mark.index + count, mark.line + 1, 0⟩

/-- Unread text and the place where it begins. -/
structure Cursor where
  rest : Text
  mark : Mark
  deriving DecidableEq, Repr

/-- The start of a text. -/
def Cursor.ofText (text : Text) : Cursor :=
  ⟨text, ⟨0, 0, 0⟩⟩

/-- The characters that end a line. -/
def isBreak (character : Char) : Bool :=
  character == '\n' || character == '\r' || character.toNat == 0x85 ||
    character.toNat == 0x2028 || character.toNat == 0x2029

/-- Whether a text is at the end of a word: at a blank, a line break or its own end. -/
def atWordEnd : Text → Bool
  | [] => true
  | character :: _ => Text.isSpacing character || isBreak character

/-- Whether a text is at the end of a line. -/
def atLineEnd : Text → Bool
  | [] => true
  | character :: _ => isBreak character

/-- The letters, digits and marks of the names in directives, anchors and tags. -/
def isNameCharacter (character : Char) : Bool :=
  character.isAlphanum || character == '_' || character == '-'

/-- What a line break contributes to the content of a scalar: the two newer separators stay, and
every other break is a line feed. -/
def breakContent (character : Char) : Char :=
  if character.toNat == 0x2028 || character.toNat == 0x2029 then character else '\n'

/-- Whether a line starts with three equal characters that form a word: the marks that begin and
end documents. -/
def startsWithTriple (character : Char) : Text → Bool
  | first :: second :: third :: rest =>
    first == character && second == character && third == character && atWordEnd rest
  | _ => false

/-- Whether a text, read at a column, begins or ends a document. -/
def atDocumentMark (column : Nat) (text : Text) : Bool :=
  column == 0 && (startsWithTriple '-' text || startsWithTriple '.' text)

namespace Cursor

/-- Move over characters of the current line. -/
def advance (cursor : Cursor) (count : Nat) : Cursor :=
  ⟨cursor.rest.drop count, cursor.mark.next count⟩

/-- Move over the characters of the current line that pass a test. -/
def advanceWhile (cursor : Cursor) (test : Char → Bool) : Cursor :=
  cursor.advance (cursor.rest.takeWhile test).length

/-- Move over a line break, if there is one. -/
def advanceLine (cursor : Cursor) : Cursor :=
  match cursor.rest with
  | '\r' :: '\n' :: rest => ⟨rest, cursor.mark.nextLine 2⟩
  | character :: rest =>
    if isBreak character then ⟨rest, cursor.mark.nextLine 1⟩ else cursor
  | [] => cursor

/-- Move to the end of the line. -/
def advanceToLineEnd (cursor : Cursor) : Cursor :=
  cursor.advanceWhile fun character => !isBreak character

/-- Move over a comment that ends the current line, if there is one within reach. -/
def advanceOverComment (cursor : Cursor) : Cursor :=
  match (cursor.rest.take 512).dropWhile Text.isSpacing with
  | '#' :: _ => cursor.advanceToLineEnd
  | _ => cursor

end Cursor

/-- What stands between two tokens. -/
inductive Gap where
  /-- Blanks and line breaks. -/
  | open
  /-- The inside of a comment. -/
  | comment
  /-- The way from the end of one comment to the next. -/
  | towardsComment

/-- Whether the next thing behind the end of a comment is another comment. -/
def commentFollows (text : Text) : Bool :=
  match ((text.drop 1).take 511).dropWhile fun character =>
      Text.isSpacing character || isBreak character with
  | '#' :: _ => true
  | _ => false

/-- Move over what stands between two tokens.  In block context a line break makes way for a
key again, and until then a tab is as good as a space; `keyAllowed` is updated on the way. -/
def skipGap
    (inFlow : Bool) :
    Gap → Bool → Mark → Text → Cursor × Bool
  | _, keyAllowed, mark, [] => (⟨[], mark⟩, keyAllowed)
  | .open, keyAllowed, mark, '\r' :: '\n' :: rest =>
    skipGap inFlow .open (keyAllowed || !inFlow) (mark.nextLine 2) rest
  | .open, keyAllowed, mark, character :: rest =>
    if mark.column == 0 && character.toNat == 0xfeff then
      skipGap inFlow .open keyAllowed (mark.next 1) rest
    else if character == ' ' || (character == '\t' && (inFlow || !keyAllowed)) then
      skipGap inFlow .open keyAllowed (mark.next 1) rest
    else if character == '#' then
      skipGap inFlow .comment keyAllowed (mark.next 1) rest
    else if isBreak character then
      skipGap inFlow .open (keyAllowed || !inFlow) (mark.nextLine 1) rest
    else
      (⟨character :: rest, mark⟩, keyAllowed)
  | .comment, keyAllowed, mark, character :: rest =>
    if !isBreak character then
      skipGap inFlow .comment keyAllowed (mark.next 1) rest
    else if commentFollows (character :: rest) then
      skipGap inFlow .towardsComment keyAllowed (mark.nextLine 1) rest
    else if character == '\r' then
      match rest with
      | '\n' :: rest => skipGap inFlow .open (keyAllowed || !inFlow) (mark.nextLine 2) rest
      | rest => skipGap inFlow .open (keyAllowed || !inFlow) (mark.nextLine 1) rest
    else
      skipGap inFlow .open (keyAllowed || !inFlow) (mark.nextLine 1) rest
  | .towardsComment, keyAllowed, mark, character :: rest =>
    if character == '#' then
      skipGap inFlow .comment keyAllowed (mark.next 1) rest
    else if isBreak character then
      skipGap inFlow .towardsComment keyAllowed (mark.nextLine 1) rest
    else
      skipGap inFlow .towardsComment keyAllowed (mark.next 1) rest

end UnoBindgen.Yaml
