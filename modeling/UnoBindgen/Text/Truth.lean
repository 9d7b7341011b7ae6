import UnoBindgen.Text.Basic

/-!
# Truth values as words

The words that stand for a truth value on the command line and in the environment.
-/

namespace UnoBindgen.Text

/-- The words for what is so. -/
def affirmations : List Text :=
  words ["1", "t", "T", "TRUE", "true", "True"]

/-- The words for what is not so. -/
def negations : List Text :=
  words ["0", "f", "F", "FALSE", "false", "False"]

/-- The truth value that a word stands for. -/
def truth? (word : Text) : Option Bool :=
  if affirmations.contains word then some true
  else if negations.contains word then some false
  else none

/-- The usual word for a truth value. -/
def ofTruth (value : Bool) : Text :=
  if value then "true" else "false"

end UnoBindgen.Text
