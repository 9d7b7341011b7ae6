import UnoBindgen.Fault
import UnoBindgen.Text.Numeral
import UnoBindgen.Text.Quoted
import UnoBindgen.Text.Truth

/-!
# Flags on the command line

A flag has a long name behind two dashes and perhaps a letter behind one.  Its value follows behind
an equals sign or as the next argument; a flag that only says yes, or counts, needs no value.
Letters may be written together, and flags and other arguments may be mixed.  Behind two dashes
alone everything is an argument.
-/

namespace UnoBindgen.Cli

/-- The flags of all commands. -/
inductive Flag where
  | verbose
  | jsonLogs
  | help
  | output
  | workers
  | watch
  | format
  | sources
  | force
  | jsonOutput
  deriving DecidableEq, Repr

/-- What a flag takes as its value. -/
inductive FlagForm where
  /-- How often it was given. -/
  | count
  | truth
  | text
  | number
  deriving DecidableEq, Repr

namespace Flag

/-- The long name of a flag. -/
def name : Flag → Text
  | .verbose => "verbose"
  | .jsonLogs => "json"
  | .help => "help"
  | .output => "output"
  | .workers => "workers"
  | .watch => "watch"
  | .format => "format"
  | .sources => "sources"
  | .force => "force"
  | .jsonOutput => "json-output"

/-- The letter of a flag, if it has one. -/
def letter? : Flag → Option Char
  | .verbose => some 'v'
  | .help => some 'h'
  | .output => some 'o'
  | .jsonOutput => some 'j'
  | _ => none

/-- What a flag takes. -/
def form : Flag → FlagForm
  | .verbose => .count
  | .output => .text
  | .format => .text
  | .workers => .number
  | _ => .truth

/-- The value of a flag that is given without one, if that is possible. -/
def implied? (flag : Flag) : Option Text :=
  match flag.form with
  | .count => some ['+', '1']
  | .truth => some ['t', 'r', 'u', 'e']
  | .text => none
  | .number => none

/-- How a flag is named in a message. -/
def title (flag : Flag) : Text :=
  match flag.letter? with
  | some letter => '-' :: letter :: ", --".toList ++ flag.name
  | none => "--" ++ flag.name

end Flag

/-- The values of all flags. -/
structure FlagValues where
  verbosity : Int
  jsonLogs : Bool
  help : Bool
  /-- The output root; empty for the one of the settings. -/
  output : Text
  /-- The number of workers; negative for the one of the settings. -/
  workers : Int
  watch : Bool
  format : Text
  sources : Bool
  force : Bool
  jsonOutput : Bool
  deriving DecidableEq, Repr

namespace FlagValues

/-- The values when no flag is given. -/
def default : FlagValues where
  verbosity := 0
  jsonLogs := false
  help := false
  output := []
  workers := -1
  watch := false
  format := "toml"
  sources := false
  force := false
  jsonOutput := false

/-- Set the text of a flag. -/
def withText (values : FlagValues) (flag : Flag) (text : Text) : FlagValues :=
  match flag with
  | .output => { values with output := text }
  | .format => { values with format := text }
  | _ => values

/-- Set the number of a flag. -/
def withNumber (values : FlagValues) (flag : Flag) (number : Int) : FlagValues :=
  match flag with
  | .workers => { values with workers := number }
  | .verbose => { values with verbosity := number }
  | _ => values

/-- Set the truth value of a flag. -/
def withTruth (values : FlagValues) (flag : Flag) (truth : Bool) : FlagValues :=
  match flag with
  | .jsonLogs => { values with jsonLogs := truth }
  | .help => { values with help := truth }
  | .watch => { values with watch := truth }
  | .sources => { values with sources := truth }
  | .force => { values with force := truth }
  | .jsonOutput => { values with jsonOutput := truth }
  | _ => values

end FlagValues

/-! ## Giving a flag its value -/

/-- A fault in the use of the command line. -/
def misuse (text : Text) : Fault :=
  .external text false

/-- A value that a flag does not take, and why. -/
def invalidValue (flag : Flag) (value reason : Text) : Fault :=
  misuse
    ("invalid argument " ++ value.quote ++ " for " ++ flag.title.quote ++ " flag: " ++ reason)

/-- The whole number that a value stands for, or why it stands for none. -/
def numberOfValue (value : Text) : Except Text Int :=
  match value.wholeNumber? with
  | some number =>
    if Text.fitsWord number then .ok number
    else .error ("strconv.ParseInt: parsing " ++ value.quote ++ ": value out of range")
  | none => .error ("strconv.ParseInt: parsing " ++ value.quote ++ ": invalid syntax")

/-- The truth value that a value stands for, or why it stands for none. -/
def truthOfValue (value : Text) : Except Text Bool :=
  match value.truth? with
  | some truth => .ok truth
  | none => .error ("strconv.ParseBool: parsing " ++ value.quote ++ ": invalid syntax")

/-- Give a flag its value.  A flag that counts goes up by one when it is given without a value. -/
def giveValue (values : FlagValues) (flag : Flag) (value : Text) : Except Fault FlagValues :=
  match flag.form with
  | .text => .ok (values.withText flag value)
  | .number =>
    match numberOfValue value with
    | .ok number => .ok (values.withNumber flag number)
    | .error reason => .error (invalidValue flag value reason)
  | .truth =>
    match truthOfValue value with
    | .ok truth => .ok (values.withTruth flag truth)
    | .error reason => .error (invalidValue flag value reason)
  | .count =>
    if value = ['+', '1'] then
      .ok (values.withNumber flag (values.verbosity + 1))
    else
      match numberOfValue value with
      | .ok number => .ok (values.withNumber flag number)
      | .error reason => .error (invalidValue flag value reason)

/-! ## Reading arguments -/

/-- A character between single quotation marks. -/
def quotedCharacter (character : Char) : Text :=
  let shown : Text :=
    if character = '\'' then ['\\', '\'']
    else if character = '"' then ['"']
    else Text.quoteChar character
  '\'' :: shown ++ ['\'']

/-- The letter that a message names for an unknown flag: the first byte of its encoding. -/
def namedLetter (character : Char) : Char :=
  if character.toNat < 0x80 then character else Char.ofNat 0xc3

/-- Read the letters behind a single dash.  The answer also says whether the next argument was
taken as a value. -/
def readLetters (flags : List Flag) (next? : Option Text) :
    FlagValues → Text → Except Fault (FlagValues × Bool)
  | values, [] => .ok (values, false)
  | values, letter :: rest =>
    match flags.find? fun flag => flag.letter? == some letter with
    | none =>
      .error
        (misuse
          ("unknown shorthand flag: " ++ quotedCharacter (namedLetter letter) ++ " in -" ++
            letter :: rest))
    | some flag =>
      match rest, flag.implied? with
      | '=' :: first :: more, _ =>
        (giveValue values flag (first :: more)).map fun changed => (changed, false)
      | _, some value =>
        match giveValue values flag value with
        | .ok changed => readLetters flags next? changed rest
        | .error fault => .error fault
      | first :: more, none =>
        (giveValue values flag (first :: more)).map fun changed => (changed, false)
      | [], none =>
        match next? with
        | some value => (giveValue values flag value).map fun changed => (changed, true)
        | none =>
          .error
            (misuse
              ("flag needs an argument: " ++ quotedCharacter letter ++ " in -" ++ [letter]))

/-- Read a long flag behind its dashes. -/
def readLong (flags : List Flag) (next? : Option Text) (values : FlagValues) (text : Text) :
    Except Fault (FlagValues × Bool) :=
  let name := text.takeWhile (· != '=')
  let behind := text.dropWhile (· != '=')
  if text.isEmpty || text.startsWith ['-'] || text.startsWith ['='] then
    .error (misuse ("bad flag syntax: --" ++ text))
  else
    match flags.find? fun flag => flag.name == name with
    | none => .error (misuse ("unknown flag: --" ++ name))
    | some flag =>
      match behind, flag.implied?, next? with
      | _ :: value, _, _ => (giveValue values flag value).map fun changed => (changed, false)
      | [], some value, _ => (giveValue values flag value).map fun changed => (changed, false)
      | [], none, some value => (giveValue values flag value).map fun changed => (changed, true)
      | [], none, none => .error (misuse ("flag needs an argument: --" ++ name))

/-- The values of the flags among arguments, and the other arguments. -/
structure Arguments where
  values : FlagValues
  others : List Text
  deriving DecidableEq, Repr

/-- Read arguments. -/
def readArguments (flags : List Flag) (values : FlagValues) (arguments : List Text) :
    Except Fault Arguments :=
  match arguments with
  | [] => .ok ⟨values, []⟩
  | argument :: rest =>
    match argument with
    | ['-', '-'] => .ok ⟨values, rest⟩
    | '-' :: '-' :: text =>
      match readLong flags rest.head? values text with
      | .error fault => .error fault
      | .ok (changed, taken) =>
        readArguments flags changed (if taken then rest.tail else rest)
    | '-' :: letter :: letters =>
      match readLetters flags rest.head? values (letter :: letters) with
      | .error fault => .error fault
      | .ok (changed, taken) =>
        readArguments flags changed (if taken then rest.tail else rest)
    | _ =>
      match readArguments flags values rest with
      | .error fault => .error fault
      | .ok parsed => .ok { parsed with others := argument :: parsed.others }
termination_by arguments.length
decreasing_by
  all_goals first
    | (split <;> simp only [List.length_cons, List.length_tail] <;> omega)
    | (simp only [List.length_cons] ; omega)

end UnoBindgen.Cli
