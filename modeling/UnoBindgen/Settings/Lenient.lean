import UnoBindgen.Settings.Document
import UnoBindgen.Text.Truth

/-!
# Lenient reading of settings

Values that come from several places, of which the environment knows nothing but texts, are brought
to the type of their setting where there is an obvious way: a text that is a numeral serves as a
number, a number as a text, and so on.  What has no such way is refused.
-/

namespace UnoBindgen

namespace Settings

/-- The least number that fits into a signed word, which stands for every number too large for
one. -/
def leastWord : Int := -9223372036854775808

/-- A number that fits into a signed word. -/
def toWord (number : Int) : Int :=
  if Text.fitsWord number then number else leastWord

/-- A value as a text. -/
def textOf? : Toml.Value → Option Text
  | .text content => some content
  | .integer value => some (Text.ofInt value)
  | .fraction value => some value.positional
  | .infinity negative => some (if negative then "-Inf" else "+Inf")
  | .notANumber => some "NaN"
  | .truth value => some (if value then ['1'] else ['0'])
  | _ => none

/-- A value as a whole number.  The empty text is zero. -/
def numberOf? : Toml.Value → Option Int
  | .text [] => some 0
  | .text content => content.word?
  | .integer value => some value
  | .fraction value => some (toWord value.truncated)
  | .infinity _ => some leastWord
  | .notANumber => some leastWord
  | .truth value => some (if value then 1 else 0)
  | _ => none

/-- A value as a truth value.  The empty text is not so, and neither is zero. -/
def truthOf? : Toml.Value → Option Bool
  | .text [] => some false
  | .text content => content.truth?
  | .integer value => some (value != 0)
  | .fraction value => some (value.digits != 0)
  | .infinity _ => some true
  | .notANumber => some true
  | .truth value => some value
  | _ => none

/-- A value brought to the type of a setting. -/
def converted? (setting : Setting) (value : Toml.Value) : Option Toml.Value :=
  match setting.form with
  | .text => (textOf? value).map .text
  | .number => (numberOf? value).map .integer
  | .truth => (truthOf? value).map .truth

/-- Settings of which nothing is known. -/
def blank : Settings := ⟨[], ⟨[], [], [], [], [], [], []⟩, 0, false⟩

/-- A setting whose value has no way to its type. -/
def unusable (setting : Setting) : Fault :=
  .external
    ("decoding failed due to the following error(s):\n\n'" ++ setting.key ++
      "' has a value of another type") false

/-- Take a setting over from a document.  A setting that is not there stays as it is. -/
def takeOver (document : Toml.Table) (settings : Settings) (setting : Setting) :
    Except Fault Settings :=
  match document.lookup setting.sectionName with
  | none => .ok settings
  | some (.table entries) =>
    match entries.lookup setting.name with
    | none => .ok settings
    | some value =>
      match (converted? setting value).bind (settings.assign? setting) with
      | some changed => .ok changed
      | none => .error (unusable setting)
  | some _ => .error (unusable setting)

/-- The settings that a document with lower-case keys describes. -/
def ofDocument (document : Toml.Table) : Except Fault Settings :=
  match Setting.all.foldlM (takeOver document) blank with
  | .ok settings => .ok settings
  | .error fault => .error (.within "failed to unmarshal config" fault)

/-! ## Showing values -/

/-- A date or time as it is shown.  One with an offset from universal time shows the offset behind
the time of day, and its name behind the offset. -/
def momentText (content : Text) : Text :=
  let usual := Toml.printMoment content
  let time := (usual.drop 11).takeWhile fun character =>
    Text.isDecimal character || character == ':' || character == '.'
  match usual.drop (11 + time.length) with
  | [] => usual
  | ['Z'] => usual.take 10 ++ " " ++ time ++ " +0000 UTC"
  | offset =>
    let digits := offset.filter (· != ':')
    usual.take 10 ++ " " ++ time ++ " " ++ digits ++ " " ++ digits

/-- A single value as a text; lists and tables have none. -/
def plainText : Toml.Value → Text
  | .truth value => Text.ofTruth value
  | .moment content => momentText content
  | value => (textOf? value).getD []

mutual

/-- A value as it is shown to a person. -/
def shown : Toml.Value → Text
  | .fraction value => value.shown
  | .array items => '[' :: Text.join [' '] (shownItems items) ++ [']']
  | .table entries => "map[" ++ Text.join [' '] (shownEntries entries) ++ "]"
  | value => plainText value

/-- The items of a list as they are shown. -/
def shownItems : List Toml.Value → List Text
  | [] => []
  | item :: rest => shown item :: shownItems rest

/-- The entries of a table as they are shown. -/
def shownEntries : List (Text × Toml.Value) → List Text
  | [] => []
  | (key, value) :: rest => (key ++ ":" ++ shown value) :: shownEntries rest

end

end Settings

end UnoBindgen
