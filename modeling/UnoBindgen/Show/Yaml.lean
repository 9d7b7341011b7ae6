import UnoBindgen.Settings.Lenient
import UnoBindgen.Text.Quoted
import UnoBindgen.Yaml.Decode

/-!
# Documents as YAML

A document is shown as YAML in block style, indented by four blanks a level.  A text stands plainly
where it reads back as the same text, as an indented block when it has several lines, and between
quotation marks otherwise.
-/

namespace UnoBindgen.Show

/-- Words that older editions of the language take for truth values. -/
def oldTruthWords : List Text :=
  Text.words ["y", "Y", "yes", "Yes", "YES", "on", "On", "ON", "n", "N", "no", "No", "NO", "off",
    "Off", "OFF"]

/-- Whether digits behind a colon are at most fifty-nine. -/
def isSixtieth (part : Text) : Bool :=
  match part with
  | [digit] => digit.isDigit
  | [tens, units] => tens.isDigit && tens ≤ '5' && units.isDigit
  | _ => false

/-- Whether older editions of the language take a text for a number in base sixty. -/
def isSexagesimal (text : Text) : Bool :=
  let unsigned :=
    match text with
    | '+' :: rest => rest
    | '-' :: rest => rest
    | _ => text
  match Text.splitAt ':' unsigned with
  | whole :: part :: parts =>
    let last := (part :: parts).getLast?.getD []
    let tail := last.dropWhile (· != '.')
    let sixtieths := (part :: parts).dropLast ++ [last.takeWhile (· != '.')]
    (whole.head?.any Char.isDigit) &&
      whole.all (fun character => character.isDigit || character == '_') &&
      sixtieths.all isSixtieth &&
      (tail.drop 1).all fun character => character.isDigit || character == '_'
  | _ => false

/-- Whether a plain scalar reads back as a text, and not as anything else. -/
def readsAsText (text : Text) : Bool :=
  !(Yaml.checkedTags.any fun tag => Yaml.fitsTag tag text) && text != ['<', '<'] &&
    !isSexagesimal text && !oldTruthWords.contains text

/-- Whether a character can be written as it is. -/
def isYamlPrintable (character : Char) : Bool :=
  let code := character.toNat
  code == 0x0a || (0x20 ≤ code && code ≤ 0x7e) || (0xa0 ≤ code && code ≤ 0xfffd && code != 0xfeff)

/-- Whether a character starts something other than a plain scalar. -/
def isYamlIndicator (character : Char) : Bool :=
  "#,[]\x7b\x7d&*!|>'\"%@`".toList.contains character

/-- Whether a mark inside a text would end or start something: a colon before a blank, or a
number sign behind one. -/
def hasInnerIndicator : Char → Text → Bool
  | _, [] => false
  | previous, character :: rest =>
    (character == ':' && (rest.isEmpty || rest.head?.any Text.isSpacing)) ||
      (character == '#' && (Text.isSpacing previous || Yaml.isBreak previous)) ||
      hasInnerIndicator character rest

/-- Whether a text can stand plainly in a block. -/
def canStandPlain (text : Text) : Bool :=
  match text with
  | [] => true
  | first :: rest =>
    let followed := rest.isEmpty || rest.head?.any Text.isSpacing
    !(text.startsWith ['-', '-', '-'] || text.startsWith ['.', '.', '.']) &&
      !isYamlIndicator first &&
      !((first == '?' || first == '-') && followed) &&
      !hasInnerIndicator 'a' text &&
      text.all (fun character => isYamlPrintable character && !Yaml.isBreak character) &&
      first != ' ' && text.getLast? != some ' '

/-- Whether a text can stand between single quotation marks. -/
def canStandQuoted (text : Text) : Bool :=
  text.all fun character => isYamlPrintable character && !Yaml.isBreak character

/-- The escape of a character between double quotation marks. -/
def yamlEscape (character : Char) : Text :=
  let code := character.toNat
  let upperHex (width : Nat) : Text := (Text.hexDigits width code).map Char.toUpper
  match code with
  | 0x00 => ['\\', '0']
  | 0x07 => ['\\', 'a']
  | 0x08 => ['\\', 'b']
  | 0x09 => ['\\', 't']
  | 0x0a => ['\\', 'n']
  | 0x0b => ['\\', 'v']
  | 0x0c => ['\\', 'f']
  | 0x0d => ['\\', 'r']
  | 0x1b => ['\\', 'e']
  | 0x22 => ['\\', '"']
  | 0x5c => ['\\', '\\']
  | 0x85 => ['\\', 'N']
  | 0xa0 => ['\\', '_']
  | 0x2028 => ['\\', 'L']
  | 0x2029 => ['\\', 'P']
  | _ =>
    if code ≤ 0xff then '\\' :: 'x' :: upperHex 2
    else if code ≤ 0xffff then '\\' :: 'u' :: upperHex 4
    else '\\' :: 'U' :: upperHex 8

/-- A text between double quotation marks. -/
def yamlEscaped (text : Text) : Text :=
  '"' :: (text.flatMap fun character =>
    if !isYamlPrintable character || Yaml.isBreak character || character == '"' ||
        character == '\\' then
      yamlEscape character
    else
      [character]) ++ ['"']

/-- A text between single quotation marks. -/
def yamlVerbatim (text : Text) : Text :=
  '\'' :: Text.replace '\'' ['\'', '\''] text ++ ['\'']

/-- Whether a line of several ends in a blank. -/
def hasBlankLineEnd (text : Text) : Bool :=
  text.lines.any fun line => line.getLast? == some ' '

/-- Whether a text of several lines can be an indented block. -/
def canStandBlock (text : Text) : Bool :=
  !hasBlankLineEnd text &&
    text.all fun character =>
      character == '\t' || character == '\n' ||
        (isYamlPrintable character && !Yaml.isBreak character)

/-- A text of several lines as an indented block at a level. -/
def yamlBlock (level : Nat) (text : Text) : Text :=
  let hint : Text := if text.head?.any fun first => first == ' ' || first == '\n' then ['4'] else []
  let chomping : Text :=
    if text.endsWith ['\n', '\n'] || text == ['\n'] then ['+']
    else if text.endsWith ['\n'] then []
    else ['-']
  let lines := Text.lines (if text.endsWith ['\n'] then text.dropLast else text)
  let indent := List.replicate (4 * level) ' '
  '|' :: hint ++ chomping ++
    lines.flatMap fun line => '\n' :: (if line.isEmpty then [] else indent ++ line)

/-- A text at a level. -/
def yamlText (level : Nat) (text : Text) : Text :=
  if text.contains ['\n'] then
    if canStandBlock text then yamlBlock level text else yamlEscaped text
  else if !readsAsText text then
    yamlEscaped text
  else if canStandPlain text then
    text
  else if canStandQuoted text then
    yamlVerbatim text
  else
    yamlEscaped text

mutual

/-- A value behind its key or its mark, with the line feed at its end. -/
def yaml (level : Nat) : Toml.Value → Text
  | .text content => ' ' :: yamlText level content ++ ['\n']
  | .moment content => ' ' :: yamlText level (Toml.printMoment content) ++ ['\n']
  | .array items => if items.isEmpty then " []\n" else '\n' :: yamlItems level items
  | .table entries =>
    if entries.isEmpty then " \x7b\x7d\n" else '\n' :: yamlEntries level entries
  | value => ' ' :: Settings.shown value ++ ['\n']

/-- The items of a list, one a line. -/
def yamlItems (level : Nat) : List Toml.Value → Text
  | [] => []
  | item :: rest =>
    List.replicate (4 * level) ' ' ++ "-" ++ yaml (level + 1) item ++ yamlItems level rest

/-- The entries of a table, one a line. -/
def yamlEntries (level : Nat) : List (Text × Toml.Value) → Text
  | [] => []
  | (key, value) :: rest =>
    List.replicate (4 * level) ' ' ++ yamlText level key ++ ":" ++ yaml (level + 1) value ++
      yamlEntries level rest

end

end UnoBindgen.Show
