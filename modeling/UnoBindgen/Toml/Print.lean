import UnoBindgen.Toml.Document

/-!
# Printing TOML documents

A document is printed with the plain entries of a table before its inner tables, which follow
under headers of their own, each behind an empty line.  Texts stand between single quotation marks
wherever that is possible.
-/

namespace UnoBindgen.Toml

/-- Whether a text needs double quotation marks and escapes. -/
def needsEscapes (text : Text) : Bool :=
  text.any fun character => character == '\'' || isControl character

/-- An upper-case hexadecimal digit. -/
def upperHexDigit (value : Nat) : Char :=
  if value < 10 then Char.ofNat ('0'.toNat + value) else Char.ofNat ('A'.toNat + (value - 10))

/-- A character between double quotation marks. -/
def escapeCharacter (character : Char) : Text :=
  if character == '\\' then ['\\', '\\']
  else if character == '"' then ['\\', '"']
  else if character == '\x08' then ['\\', 'b']
  else if character == '\x0c' then ['\\', 'f']
  else if character == '\n' then ['\\', 'n']
  else if character == '\r' then ['\\', 'r']
  else if character == '\t' then ['\\', 't']
  else if isControl character then
    ['\\', 'u', '0', '0', upperHexDigit (character.toNat / 16),
      upperHexDigit (character.toNat % 16)]
  else [character]

/-- A text between double quotation marks. -/
def printEscaped (text : Text) : Text :=
  '"' :: text.flatMap escapeCharacter ++ ['"']

/-- A text between single quotation marks. -/
def printVerbatim (text : Text) : Text :=
  '\'' :: text ++ ['\'']

/-- A text. -/
def printText (text : Text) : Text :=
  if needsEscapes text then printEscaped text else printVerbatim text

/-- A part of a key. -/
def printKeyPart (part : Text) : Text :=
  if part.isEmpty then ['\'', '\'']
  else if needsEscapes part then printEscaped part
  else if part.all isBareKey then part
  else printVerbatim part

/-- A dotted key. -/
def printKey (path : KeyPath) : Text :=
  Text.join ['.'] (path.map printKeyPart)

/-- A fraction.  A whole one is written out to its last digit and keeps a zero behind its
point. -/
def printFraction (value : Text.Decimal) : Text :=
  if value.isWhole then
    value.sign ++ Text.ofNat value.truncated.natAbs ++ ['.', '0']
  else
    value.positional

/-- A mark between the parts of a date or time in its usual spelling. -/
def usualMark (character : Char) : Char :=
  if character == ' ' || character == 't' then 'T'
  else if character == 'z' then 'Z'
  else character

/-- An offset from universal time in its usual form: a letter stands for none. -/
def printOffset (offset : Text) : Text :=
  if offset == "+00:00" || offset == "-00:00" then ['Z'] else offset

/-- The fraction of a second in its usual form.  Nine digits of it count, and before an offset the
zeros at its end are left out. -/
def printSecondFraction (places offset : Text) : Text :=
  let counted := places.take 9
  let kept :=
    if offset.isEmpty then counted else (counted.reverse.dropWhile (· == '0')).reverse
  if kept.isEmpty then [] else '.' :: kept

/-- A date or time in its usual form.  A date and a time of day take nineteen characters up to the
fraction of the second. -/
def printMoment (content : Text) : Text :=
  let usual := content.map usualMark
  let whole := usual.takeWhile (· != '.')
  match usual.dropWhile (· != '.') with
  | [] => whole.take 19 ++ printOffset (whole.drop 19)
  | _ :: behind =>
    let offset := behind.dropWhile Char.isDigit
    whole ++ printSecondFraction (behind.takeWhile Char.isDigit) offset ++ printOffset offset

mutual

/-- A value on one line. -/
def printInline : Value → Text
  | .text content => printText content
  | .integer value => Text.ofInt value
  | .fraction value => printFraction value
  | .infinity negative => if negative then ['-', 'i', 'n', 'f'] else ['i', 'n', 'f']
  | .notANumber => ['n', 'a', 'n']
  | .truth value => if value then ['t', 'r', 'u', 'e'] else ['f', 'a', 'l', 's', 'e']
  | .moment content => printMoment content
  | .array items => '[' :: Text.join [',', ' '] (printInlineItems items) ++ [']']
  | .table entries =>
    '\x7b' :: Text.join [',', ' '] (printInlineEntries entries) ++ ['\x7d']

/-- The items of an array on one line. -/
def printInlineItems : List Value → List Text
  | [] => []
  | item :: rest => printInline item :: printInlineItems rest

/-- The entries of a table on one line. -/
def printInlineEntries : List (Text × Value) → List Text
  | [] => []
  | (key, value) :: rest =>
    (printKeyPart key ++ " = " ++ printInline value) :: printInlineEntries rest

end

/-- Whether a value is a table. -/
def Value.isTable : Value → Bool
  | .table _ => true
  | _ => false

/-- Whether a value is printed under a header of its own: a table, or an array of nothing but
tables. -/
def Value.hasHeader : Value → Bool
  | .table _ => true
  | .array items => !items.isEmpty && items.all Value.isTable
  | _ => false

/-- The plain entries of a table, one a line. -/
def printPairs (entries : Table) : Text :=
  entries.flatMap fun (key, value) =>
    if value.hasHeader then [] else printKeyPart key ++ " = " ++ printInline value ++ "\n"

/-- The inner tables behind the plain entries of a table. -/
def printBody (entries : Table) (inner : List Text) : Text :=
  let pairs := printPairs entries
  if pairs.isEmpty || inner.isEmpty then pairs ++ Text.join ['\n'] inner
  else pairs ++ ['\n'] ++ Text.join ['\n'] inner

mutual

/-- A value under its header. -/
def printSection (path : KeyPath) : Value → Text
  | .table entries =>
    '[' :: printKey path ++ [']', '\n'] ++ printBody entries (printSections path entries)
  | .array items => Text.join ['\n'] (printItems path items)
  | _ => []

/-- The values of a table that have headers. -/
def printSections (path : KeyPath) : List (Text × Value) → List Text
  | [] => []
  | (key, value) :: rest =>
    if value.hasHeader then
      printSection (path ++ [key]) value :: printSections path rest
    else
      printSections path rest

/-- The tables of an array, each under a header. -/
def printItems (path : KeyPath) : List Value → List Text
  | [] => []
  | .table entries :: rest =>
    ('[' :: '[' :: printKey path ++ [']', ']', '\n'] ++
      printBody entries (printSections path entries)) :: printItems path rest
  | _ :: rest => printItems path rest

end

/-- A document. -/
def print (table : Table) : Text :=
  printBody table (printSections [] table)

/-! ## Sorting keys -/

/-- Insert an entry into entries that are sorted by their keys. -/
def insertSorted (key : Text) (value : Value) : Table → Table
  | [] => [(key, value)]
  | (other, existing) :: rest =>
    if Text.notAfter key other then
      (key, value) :: (other, existing) :: rest
    else
      (other, existing) :: insertSorted key value rest

mutual

/-- A value with the keys of all its tables sorted. -/
def Value.sortKeys : Value → Value
  | .array items => .array (sortItems items)
  | .table entries => .table (sortEntries entries)
  | value => value

/-- The items of an array with their keys sorted. -/
def sortItems : List Value → List Value
  | [] => []
  | item :: rest => item.sortKeys :: sortItems rest

/-- The entries of a table, sorted by their keys at every level. -/
def sortEntries : List (Text × Value) → List (Text × Value)
  | [] => []
  | (key, value) :: rest => insertSorted key value.sortKeys (sortEntries rest)

end

end UnoBindgen.Toml
