import UnoBindgen.Text.Basic
import UnoBindgen.Text.CaseTable

/-!
# Letter case

Simple case mapping sends one character to one character.  `capitalize` and `uncapitalize`
change the first character of a text only; `toUpper` and `toLower` change all of them.
`foldCase` sends characters that differ in case only to one representative.
-/

namespace UnoBindgen.Text

/-- Apply the run of a table that lists the character, if there is one. -/
def mapByRuns (runs : List CaseRun) (character : Char) : Char :=
  match runs.find? fun run => run.lists character.toNat with
  | some run => Char.ofNat (Int.toNat (character.toNat + run.shift))
  | none => character

/-- The simple upper-case form of a character. -/
def upperChar (character : Char) : Char :=
  if character.toNat < 128 then character.toUpper else mapByRuns upperRuns character

/-- The simple lower-case form of a character. -/
def lowerChar (character : Char) : Char :=
  if character.toNat < 128 then character.toLower else mapByRuns lowerRuns character

/-- The stand-in for a character that could not be decoded; it starts no word. -/
def replacementChar : Char := '\uFFFD'

/-- Turn the first character of a text into its upper-case form. -/
def capitalize : Text → Text
  | [] => []
  | first :: rest => if first = replacementChar then first :: rest else upperChar first :: rest

/-- Turn the first character of a text into its lower-case form. -/
def uncapitalize : Text → Text
  | [] => []
  | first :: rest => if first = replacementChar then first :: rest else lowerChar first :: rest

/-- Turn every character of a text into its upper-case form. -/
def toUpper (text : Text) : Text :=
  text.map upperChar

/-- Turn every character of a text into its lower-case form. -/
def toLower (text : Text) : Text :=
  text.map lowerChar

end UnoBindgen.Text
