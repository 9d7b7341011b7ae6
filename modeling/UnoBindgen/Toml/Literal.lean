import UnoBindgen.Calendar
import UnoBindgen.Text.Numeral

/-!
# Keys and values of TOML texts

A value is a text, a number, a truth value, a date or time, an array, or a table written in
braces.  The two editions of the language differ in small ways: the newer one lets tables in
braces span lines and end in a comma, knows two more escapes, and lets times go without seconds.
-/

namespace UnoBindgen.Toml

/-- The editions of the language. -/
inductive Edition where
  | established
  | newer
  deriving DecidableEq, Repr

/-- Why a TOML text has no meaning. -/
inductive Problem where
  | malformedKey
  | malformedText
  | malformedEscape
  | malformedNumber
  | malformedMoment
  | malformedComment
  | unexpectedCharacter
  | outOfRange
  | alreadyDefined
  | mismatch
  deriving DecidableEq, Repr

/-- The wording of a problem. -/
def Problem.text : Problem → Text
  | .malformedKey => "malformed key"
  | .malformedText => "malformed string"
  | .malformedEscape => "invalid escape character"
  | .malformedNumber => "malformed number"
  | .malformedMoment => "malformed date or time"
  | .malformedComment => "invalid character in comment"
  | .unexpectedCharacter => "unexpected character"
  | .outOfRange => "number is out of range"
  | .alreadyDefined => "key is already defined"
  | .mismatch => "incompatible types"

/-- A dotted key. -/
abbrev KeyPath := List Text

/-- A value as it is written. -/
inductive Literal where
  | text (content : Text)
  | integer (value : Int)
  /-- A decimal fraction. -/
  | fraction (value : Text.Decimal)
  /-- An infinite number. -/
  | infinity (negative : Bool)
  | notANumber
  | truth (value : Bool)
  /-- A date, a time or both, as written. -/
  | moment (content : Text)
  | array (items : List Literal)
  | inlineTable (entries : List (KeyPath × Literal))
  deriving Repr

/-- The characters that may not stand in texts and comments. -/
def isControl (character : Char) : Bool :=
  (character.toNat < 0x20 && character != '\t') || character.toNat == 0x7f

/-- Drop the blanks at the start of a text. -/
def dropSpacing (text : Text) : Text :=
  text.dropWhile Text.isSpacing

/-- Drop a comment up to the end of its line. -/
def dropComment : Text → Except Problem Text
  | [] => .ok []
  | '\r' :: '\n' :: rest => .ok ('\r' :: '\n' :: rest)
  | '\n' :: rest => .ok ('\n' :: rest)
  | character :: rest =>
    if isControl character then .error .malformedComment else dropComment rest

/-! ## Texts -/

/-- What a one-letter escape stands for. -/
def simpleEscape? (edition : Edition) (character : Char) : Option Char :=
  if character == 'b' then some '\x08'
  else if character == 't' then some '\t'
  else if character == 'n' then some '\n'
  else if character == 'f' then some '\x0c'
  else if character == 'r' then some '\r'
  else if character == '"' then some '"'
  else if character == '\\' then some '\\'
  else if character == 'e' && edition == .newer then some '\x1b'
  else none

/-- How many hexadecimal digits an escape takes. -/
def escapeDigits? (edition : Edition) (character : Char) : Option Nat :=
  if character == 'u' then some 4
  else if character == 'U' then some 8
  else if character == 'x' && edition == .newer then some 2
  else none

/-- Where the reader of a text between double quotation marks stands. -/
inductive TextState where
  | content
  | escape
  | code (missing : Nat) (value : Nat)
  /-- Behind a backslash at the end of a line, before anything but white space. -/
  | joining (crossedLine : Bool)

/-- Read a text between double quotation marks behind the opening ones, with the content read so
far reversed.  Over several lines, three marks close it, and up to two more belong to it. -/
def readBasic
    (edition : Edition)
    (multiline : Bool) :
    TextState → Text → Text → Except Problem (Text × Text)
  | _, _, [] => .error .malformedText
  | .content, content, '"' :: '"' :: '"' :: '"' :: '"' :: rest =>
    if multiline then .ok (content.reverse ++ ['"', '"'], rest)
    else .ok (content.reverse, '"' :: '"' :: '"' :: '"' :: rest)
  | .content, content, '"' :: '"' :: '"' :: '"' :: rest =>
    if multiline then .ok (content.reverse ++ ['"'], rest)
    else .ok (content.reverse, '"' :: '"' :: '"' :: rest)
  | .content, content, '"' :: '"' :: '"' :: rest =>
    if multiline then .ok (content.reverse, rest)
    else .ok (content.reverse, '"' :: '"' :: rest)
  | .content, content, '\r' :: '\n' :: rest =>
    if multiline then readBasic edition multiline .content ('\n' :: '\r' :: content) rest
    else .error .malformedText
  | .content, content, character :: rest =>
    if character == '"' then
      if multiline then readBasic edition multiline .content ('"' :: content) rest
      else .ok (content.reverse, rest)
    else if character == '\\' then
      readBasic edition multiline .escape content rest
    else if isControl character && !(multiline && character == '\n') then
      .error .malformedText
    else
      readBasic edition multiline .content (character :: content) rest
  | .escape, content, character :: rest =>
    match simpleEscape? edition character, escapeDigits? edition character with
    | some meant, _ => readBasic edition multiline .content (meant :: content) rest
    | none, some digits => readBasic edition multiline (.code digits 0) content rest
    | none, none =>
      if multiline && character == '\n' then
        readBasic edition multiline (.joining true) content rest
      else if multiline && (Text.isSpacing character || character == '\r') then
        readBasic edition multiline (.joining false) content rest
      else
        .error .malformedEscape
  | .code missing value, content, character :: rest =>
    match Text.hexValue? character with
    | none => .error .malformedEscape
    | some digit =>
      let value := 16 * value + digit
      if missing > 1 then
        readBasic edition multiline (.code (missing - 1) value) content rest
      else if (0xd800 ≤ value && value ≤ 0xdfff) || value > 0x10ffff then
        .error .malformedEscape
      else
        readBasic edition multiline .content (Char.ofNat value :: content) rest
  | .joining crossedLine, content, '"' :: '"' :: '"' :: '"' :: '"' :: rest =>
    if crossedLine then .ok (content.reverse ++ ['"', '"'], rest) else .error .malformedEscape
  | .joining crossedLine, content, '"' :: '"' :: '"' :: '"' :: rest =>
    if crossedLine then .ok (content.reverse ++ ['"'], rest) else .error .malformedEscape
  | .joining crossedLine, content, '"' :: '"' :: '"' :: rest =>
    if crossedLine then .ok (content.reverse, rest) else .error .malformedEscape
  | .joining crossedLine, content, character :: rest =>
    if character == '\n' then
      readBasic edition multiline (.joining true) content rest
    else if Text.isSpacing character || character == '\r' then
      readBasic edition multiline (.joining crossedLine) content rest
    else if !crossedLine then
      .error .malformedEscape
    else if character == '\\' then
      readBasic edition multiline .escape content rest
    else if isControl character then
      .error .malformedText
    else
      readBasic edition multiline .content (character :: content) rest

/-- Read a text between single quotation marks behind the opening ones.  Nothing is escaped. -/
def readLiteralText (multiline : Bool) : Text → Text → Except Problem (Text × Text)
  | _, [] => .error .malformedText
  | content, '\'' :: '\'' :: '\'' :: '\'' :: '\'' :: rest =>
    if multiline then .ok (content.reverse ++ ['\'', '\''], rest)
    else .ok (content.reverse, '\'' :: '\'' :: '\'' :: '\'' :: rest)
  | content, '\'' :: '\'' :: '\'' :: '\'' :: rest =>
    if multiline then .ok (content.reverse ++ ['\''], rest)
    else .ok (content.reverse, '\'' :: '\'' :: '\'' :: rest)
  | content, '\'' :: '\'' :: '\'' :: rest =>
    if multiline then .ok (content.reverse, rest)
    else .ok (content.reverse, '\'' :: '\'' :: rest)
  | content, '\r' :: '\n' :: rest =>
    if multiline then readLiteralText multiline ('\n' :: '\r' :: content) rest
    else .error .malformedText
  | content, character :: rest =>
    if character == '\'' then
      if multiline then readLiteralText multiline ('\'' :: content) rest
      else .ok (content.reverse, rest)
    else if isControl character && !(multiline && character == '\n') then
      .error .malformedText
    else
      readLiteralText multiline (character :: content) rest

/-- A line break directly behind the opening marks does not belong to the text. -/
def dropFirstBreak : Text → Text
  | '\n' :: rest => rest
  | '\r' :: '\n' :: rest => rest
  | text => text

/-- Read a text in any of its four forms, if there is one. -/
def readText? (edition : Edition) (text : Text) : Option (Except Problem (Text × Text)) :=
  match text with
  | '"' :: '"' :: '"' :: rest => some (readBasic edition true .content [] (dropFirstBreak rest))
  | '"' :: rest => some (readBasic edition false .content [] rest)
  | '\'' :: '\'' :: '\'' :: rest => some (readLiteralText true [] (dropFirstBreak rest))
  | '\'' :: rest => some (readLiteralText false [] rest)
  | _ => none

/-! ## Keys -/

/-- The characters of keys without quotation marks. -/
def isBareKey (character : Char) : Bool :=
  character.isAlphanum || character == '_' || character == '-'

/-- Read one part of a key. -/
def readKeyPart (edition : Edition) (text : Text) : Except Problem (Text × Text) :=
  match text with
  | '"' :: rest => readBasic edition false .content [] rest
  | '\'' :: rest => readLiteralText false [] rest
  | _ =>
    let name := text.takeWhile isBareKey
    if name.isEmpty then .error .malformedKey else .ok (name, text.dropWhile isBareKey)

/-- Read a dotted key, with blanks around the dots and behind.  The first argument bounds the
number of parts. -/
def readKey (edition : Edition) : Nat → Text → Except Problem (KeyPath × Text)
  | 0, _ => .error .malformedKey
  | parts + 1, text => do
    let (part, rest) ← readKeyPart edition text
    match dropSpacing rest with
    | '.' :: rest =>
      let (path, rest) ← readKey edition parts (dropSpacing rest)
      return (part :: path, rest)
    | rest => return ([part], rest)

/-! ## Numbers, dates and times -/

/-- Whether underscores stand only between digits. -/
def underscoresBetweenDigits (text : Text) : Bool :=
  match text with
  | '_' :: _ => false
  | _ => Text.underscoresSeparate false text

/-- Read digits of a base, with underscores between them. -/
def spacedNatural? (base : Nat) (text : Text) : Option Nat :=
  if underscoresBetweenDigits text then Text.natural? base (text.filter (· != '_')) else none

/-- Whether a number is written without superfluous zeros in front. -/
def hasPlainStart (text : Text) : Bool :=
  match text with
  | '0' :: second :: _ => !(second.isDigit || second == '_')
  | _ => true

/-- Read a whole number. -/
def integer? (text : Text) : Option Int :=
  match text with
  | '0' :: 'x' :: digits => (spacedNatural? 16 digits).map Int.ofNat
  | '0' :: 'o' :: digits => (spacedNatural? 8 digits).map Int.ofNat
  | '0' :: 'b' :: digits => (spacedNatural? 2 digits).map Int.ofNat
  | _ =>
    let (negative, digits) := Text.splitSign text
    if hasPlainStart digits then
      (spacedNatural? 10 digits).map fun value => if negative then -(value : Int) else value
    else
      none

/-- Read a decimal fraction: it has digits on both sides of its point, if it has one. -/
def fraction? (text : Text) : Option Text.Decimal :=
  let (_, unsigned) := Text.splitSign text
  let isExponentMark := fun character => character == 'e' || character == 'E'
  let mantissa := unsigned.takeWhile fun character => !isExponentMark character
  let whole := mantissa.takeWhile (· != '.')
  let places := (mantissa.dropWhile (· != '.')).drop 1
  let exponent := (Text.splitSign ((unsigned.dropWhile fun c => !isExponentMark c).drop 1)).2
  let hasPoint := mantissa.contains '.'
  let hasExponent := unsigned.any isExponentMark
  if
      hasPlainStart whole && !whole.isEmpty && underscoresBetweenDigits whole &&
        (!hasPoint || (!places.isEmpty && underscoresBetweenDigits places)) &&
        (!hasExponent || (!exponent.isEmpty && underscoresBetweenDigits exponent)) &&
        (hasPoint || hasExponent) then
    Text.decimal? (text.filter (· != '_'))
  else
    none

/-- Read a number of exactly so many digits. -/
def fixedNumber? (count : Nat) (text : Text) : Option (Nat × Text) :=
  if (text.take count).length == count then
    (Text.natural? 10 (text.take count)).map fun value => (value, text.drop count)
  else
    none

/-- Read a number of two digits behind a given character. -/
def behind? (mark : Char) (text : Text) : Option (Nat × Text) :=
  match text with
  | first :: rest => if first == mark then fixedNumber? 2 rest else none
  | [] => none

/-- Read a date. -/
def dropDate? (text : Text) : Option Text := do
  let (year, rest) ← fixedNumber? 4 text
  let (month, rest) ← behind? '-' rest
  let (day, rest) ← behind? '-' rest
  if Calendar.hasDay year month day then some rest else none

/-- Read the fraction of a second, if there is one. -/
def dropSecondFraction? (text : Text) : Option Text :=
  match text with
  | '.' :: digit :: rest => if digit.isDigit then some (rest.dropWhile Char.isDigit) else none
  | ['.'] => none
  | _ => some text

/-- Read a time of day. -/
def dropTime? (edition : Edition) (text : Text) : Option Text := do
  let (hour, rest) ← fixedNumber? 2 text
  let (minute, rest) ← behind? ':' rest
  if hour > 23 || minute > 59 then
    none
  else
    match rest with
    | ':' :: _ =>
      let (second, rest) ← behind? ':' rest
      if second > 59 then none else dropSecondFraction? rest
    | _ => if edition == .newer then some rest else none

/-- Whether a text is nothing or an offset from universal time. -/
def isOffset (text : Text) : Bool :=
  match text with
  | [] => true
  | ['Z'] => true
  | ['z'] => true
  | sign :: rest =>
    (sign == '+' || sign == '-') &&
      match fixedNumber? 2 rest with
      | some (hours, rest) =>
        match behind? ':' rest with
        | some (minutes, []) => hours ≤ 23 && minutes ≤ 59
        | _ => false
      | none => false

/-- Whether a text is a date, a time, or a date and a time with or without an offset. -/
def isMoment (edition : Edition) (text : Text) : Bool :=
  match dropDate? text with
  | some [] => true
  | some (mark :: rest) =>
    (mark == 'T' || mark == 't' || mark == ' ') &&
      match dropTime? edition rest with
      | some offset => isOffset offset
      | none => false
  | none =>
    match dropTime? edition text with
    | some rest => rest.isEmpty
    | none => false

/-- The characters of numbers, dates, times and truth values. -/
def isAtomCharacter (character : Char) : Bool :=
  character.isAlphanum || ['+', '-', '_', '.', ':'].contains character

/-- Take the characters of an atom.  A blank inside belongs to it between a date and a time. -/
def takeAtom (text : Text) : Text × Text :=
  let word := text.takeWhile isAtomCharacter
  let rest := text.dropWhile isAtomCharacter
  match rest, dropDate? word with
  | ' ' :: digit :: _, some [] =>
    if digit.isDigit then
      (word ++ ' ' :: (rest.drop 1).takeWhile isAtomCharacter,
        (rest.drop 1).dropWhile isAtomCharacter)
    else
      (word, rest)
  | _, _ => (word, rest)

/-- The value of an atom that is a number, a date or a time. -/
def numeral (edition : Edition) (word : Text) : Except Problem Literal :=
  match integer? word, fraction? word with
  | some value, _ => if Text.fitsWord value then .ok (.integer value) else .error .outOfRange
  | none, some value => if value.overflows then .error .outOfRange else .ok (.fraction value)
  | none, none =>
    if isMoment edition word then .ok (.moment word)
    else if word.isEmpty then .error .unexpectedCharacter
    else .error .malformedNumber

/-- The value of an atom. -/
def atom (edition : Edition) (word : Text) : Except Problem Literal :=
  let (negative, unsigned) := Text.splitSign word
  if word == ['t', 'r', 'u', 'e'] then .ok (.truth true)
  else if word == ['f', 'a', 'l', 's', 'e'] then .ok (.truth false)
  else if unsigned == ['i', 'n', 'f'] then .ok (.infinity negative)
  else if unsigned == ['n', 'a', 'n'] then .ok .notANumber
  else numeral edition word

/-! ## Values -/

/-- Drop white space, line breaks and comments.  The first argument bounds the number of
comments and line breaks. -/
def dropLayout : Nat → Text → Except Problem Text
  | 0, text => .ok text
  | steps + 1, text =>
    match dropSpacing text with
    | '\n' :: rest => dropLayout steps rest
    | '\r' :: '\n' :: rest => dropLayout steps rest
    | '#' :: rest => do dropLayout steps (← dropComment rest)
    | rest => .ok rest

/-- What may stand between the entries of a table in braces. -/
def dropInlineLayout (edition : Edition) (text : Text) : Except Problem Text :=
  if edition == .newer then dropLayout (text.length + 1) text else .ok (dropSpacing text)

mutual

/-- Read a value.  The first argument of all these readers bounds the number of steps, each of
which takes at least one character. -/
def readValue (edition : Edition) : Nat → Text → Except Problem (Literal × Text)
  | 0, _ => .error .unexpectedCharacter
  | steps + 1, text =>
    match readText? edition text with
    | some (.ok (content, rest)) => .ok (.text content, rest)
    | some (.error problem) => .error problem
    | none =>
      match text with
      | '[' :: rest => do
        let (items, rest) ← readItems edition steps rest
        return (.array items, rest)
      | '\x7b' :: rest => do
        let (entries, rest) ← readEntries edition steps true rest
        return (.inlineTable entries, rest)
      | _ => do
        let (word, rest) := takeAtom text
        return (← atom edition word, rest)

/-- Read the items of an array up to its closing bracket. -/
def readItems (edition : Edition) : Nat → Text → Except Problem (List Literal × Text)
  | 0, _ => .error .unexpectedCharacter
  | steps + 1, text => do
    match ← dropLayout (text.length + 1) text with
    | ']' :: rest => return ([], rest)
    | rest =>
      let (item, rest) ← readValue edition steps rest
      match ← dropLayout (rest.length + 1) rest with
      | ',' :: rest =>
        let (items, rest) ← readItems edition steps rest
        return (item :: items, rest)
      | ']' :: rest => return ([item], rest)
      | _ => .error .unexpectedCharacter

/-- Read the entries of a table in braces up to the closing one. -/
def readEntries (edition : Edition) :
    Nat → Bool → Text → Except Problem (List (KeyPath × Literal) × Text)
  | 0, _, _ => .error .unexpectedCharacter
  | steps + 1, first, text => do
    let start ← dropInlineLayout edition text
    if start.head? == some '\x7d' && (first || edition == .newer) then
      return ([], start.drop 1)
    let (path, rest) ← readKey edition start.length start
    match rest with
    | '=' :: rest =>
      let (value, rest) ← readValue edition steps (dropSpacing rest)
      match ← dropInlineLayout edition rest with
      | ',' :: rest =>
        let (entries, rest) ← readEntries edition steps false rest
        return ((path, value) :: entries, rest)
      | '\x7d' :: rest => return ([(path, value)], rest)
      | _ => .error .unexpectedCharacter
    | _ => .error .malformedKey

end

end UnoBindgen.Toml
