import UnoBindgen.Settings.Lenient
import UnoBindgen.Text.Quoted

/-!
# Documents as JSON

A document is shown as JSON with one entry a line, indented by two blanks a level.  Characters that
mean something to HTML are escaped, so that the text can be put into a page as it is.
-/

namespace UnoBindgen.Show

/-- A character between double quotation marks. -/
def jsonCharacter (character : Char) : Text :=
  let code := character.toNat
  if character == '"' then ['\\', '"']
  else if character == '\\' then ['\\', '\\']
  else if character == '\n' then ['\\', 'n']
  else if character == '\r' then ['\\', 'r']
  else if character == '\t' then ['\\', 't']
  else if code == 0x08 then ['\\', 'b']
  else if code == 0x0c then ['\\', 'f']
  else if code < 0x20 || character == '<' || character == '>' || character == '&' ||
      code == 0x2028 || code == 0x2029 then
    '\\' :: 'u' :: Text.hexDigits 4 code
  else [character]

/-- A text between double quotation marks. -/
def jsonText (text : Text) : Text :=
  '"' :: text.flatMap jsonCharacter ++ ['"']

/-- A line feed and the indentation of a level. -/
def jsonBreak (level : Nat) : Text :=
  '\n' :: List.replicate (2 * level) ' '

/-- Items between brackets, one a line. -/
def jsonGroup (level : Nat) (opening closing : Char) (items : List Text) : Text :=
  if items.isEmpty then
    [opening, closing]
  else
    opening :: jsonBreak (level + 1) ++ Text.join (',' :: jsonBreak (level + 1)) items ++
      jsonBreak level ++ [closing]

mutual

/-- A value at a level. -/
def json (level : Nat) : Toml.Value → Text
  | .text content => jsonText content
  | .moment content => jsonText (Toml.printMoment content)
  | .array items => jsonGroup level '[' ']' (jsonItems (level + 1) items)
  | .table entries => jsonGroup level '\x7b' '\x7d' (jsonEntries (level + 1) entries)
  | value => Settings.shown value

/-- The items of a list. -/
def jsonItems (level : Nat) : List Toml.Value → List Text
  | [] => []
  | item :: rest => json level item :: jsonItems level rest

/-- The entries of a table. -/
def jsonEntries (level : Nat) : List (Text × Toml.Value) → List Text
  | [] => []
  | (key, value) :: rest =>
    (jsonText key ++ ": " ++ json level value) :: jsonEntries level rest

end

end UnoBindgen.Show
