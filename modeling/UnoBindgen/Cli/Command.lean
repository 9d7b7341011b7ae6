import UnoBindgen.Cli.Flags
import UnoBindgen.Text.Casing

/-!
# Commands

The commands form a tree.  The words of a command line that are neither flags nor values of flags
lead down the tree as far as they can; the rest of the line belongs to the command that is found.
-/

namespace UnoBindgen.Cli

/-- The commands. -/
inductive Command where
  | program
  | generate
  | check
  | settings
  | showSettings
  | getSetting
  | setSetting
  | createSettings
  | checkSettings
  | version
  /-- Help and shell completion, which only describe the other commands. -/
  | guide
  deriving DecidableEq, Repr

namespace Command

/-- The commands below a command, with the words that lead there. -/
def children : Command → List (Text × Command)
  | .program =>
    [ ("generate", .generate), ("check", .check), ("am", .settings), ("version", .version),
      ("completion", .guide), ("help", .guide) ]
  | .settings =>
    [ ("show", .showSettings), ("get", .getSetting), ("set", .setSetting),
      ("init", .createSettings), ("validate", .checkSettings) ]
  | _ => []

/-- The flags that a command has to itself. -/
def ownFlags : Command → List Flag
  | .generate => [.output, .workers, .watch]
  | .check => [.output, .workers]
  | .showSettings => [.format, .sources]
  | .createSettings => [.force]
  | .version => [.jsonOutput]
  | _ => []

/-- The flags that lead a reader over the words of a command line. -/
def flags (command : Command) : List Flag :=
  command.ownFlags ++ [.verbose, .jsonLogs]

/-- Whether a command does anything by itself; the others only show their help. -/
def isRunnable : Command → Bool
  | .program => false
  | .settings => false
  | .guide => false
  | _ => true

/-- Check the number of arguments of a command. -/
def checkCount (command : Command) (count : Nat) : Except Fault Unit :=
  let exactly (expected : Nat) : Except Fault Unit :=
    if count = expected then
      .ok ()
    else
      .error
        (misuse
          ("accepts " ++ Text.ofNat expected ++ " arg(s), received " ++ Text.ofNat count))
  let atLeastOne : Except Fault Unit :=
    if count = 0 then .error (misuse "requires at least 1 arg(s), only received 0") else .ok ()
  match command with
  | .generate => atLeastOne
  | .check => atLeastOne
  | .getSetting => exactly 1
  | .setSetting => exactly 2
  | _ => .ok ()

end Command

/-! ## Finding the command -/

/-- Whether an argument is a flag whose value is the next argument.  A flag that is not known
counts as one. -/
def takesNext (flags : List Flag) (argument : Text) : Bool :=
  !argument.any (· == '=') &&
    match argument with
    | '-' :: '-' :: name =>
      !(flags.any fun flag => flag.name == name && flag.implied?.isSome)
    | ['-', letter] =>
      !(flags.any fun flag => flag.letter? == some letter && flag.implied?.isSome)
    | _ => false

/-- The words among arguments that are neither flags nor values of flags. -/
def words (flags : List Flag) : List Text → List Text
  | [] => []
  | argument :: rest =>
    if argument = ['-', '-'] then
      []
    else if takesNext flags argument then
      match rest with
      | _ :: next :: others => words flags (next :: others)
      | _ => []
    else if argument.isEmpty || argument.startsWith ['-'] then
      words flags rest
    else
      argument :: words flags rest

/-- Arguments without the first word that is equal to a given one. -/
def withoutWord (flags : List Flag) (word : Text) : List Text → List Text
  | [] => []
  | argument :: rest =>
    if argument = ['-', '-'] then
      argument :: rest
    else if takesNext flags argument then
      match rest with
      | value :: others => argument :: value :: withoutWord flags word others
      | [] => [argument]
    else if argument = word && !argument.startsWith ['-'] then
      rest
    else
      argument :: withoutWord flags word rest

/-- Go down the tree of commands, by at most a number of steps. -/
def descend : Nat → Command → List Text → Command × List Text
  | 0, command, arguments => (command, arguments)
  | steps + 1, command, arguments =>
    match words command.flags arguments with
    | [] => (command, arguments)
    | word :: _ =>
      match command.children.lookup word with
      | none => (command, arguments)
      | some child => descend steps child (withoutWord command.flags word arguments)

/-- How deep the tree of commands is. -/
def depth : Nat := 2

/-! ## Suggestions -/

/-- The next row of distances in the comparison of two words. -/
def distanceRow (character : Char) : Nat → Nat → Text → List Nat → List Nat
  | left, diagonal, other :: others, above :: row =>
    let here := if character = other then diagonal else min left (min diagonal above) + 1
    here :: distanceRow character here above others row
  | _, _, _, _ => []

/-- The rows of distances in the comparison of two words. -/
def distanceRows (target : Text) : Nat → List Nat → Text → List Nat
  | _, row, [] => row
  | position, row, character :: rest =>
    let next :=
      (position + 1) ::
        distanceRow character (position + 1) (row.headD 0) target row.tail
    distanceRows target (position + 1) next rest

/-- How many characters have to be changed, added or left out to get from one word to another. -/
def distance (source target : Text) : Nat :=
  (distanceRows target 0 (List.range (target.length + 1)) source).getLastD 0

/-- The commands that a word may have been meant for. -/
def suggestions (word : Text) : List Text :=
  (Command.program.children.map Prod.fst).filter fun name =>
    name != "help".toList &&
      (decide (distance word.toLower name ≤ 2) || name.startsWith word.toLower)

/-- A word that leads nowhere. -/
def unknownCommand (word : Text) : Fault :=
  let meant := suggestions word
  let advice : Text :=
    if meant.isEmpty then
      []
    else
      "\n\nDid you mean this?\n" ++ meant.flatMap fun name => '\t' :: name ++ ['\n']
  misuse ("unknown command " ++ word.quote ++ " for \"hsuno\"" ++ advice)

/-- A command with what it was given. -/
structure Invocation where
  command : Command
  values : FlagValues
  arguments : List Text
  deriving DecidableEq, Repr

/-- Read a command line. -/
def readCommandLine (arguments : List Text) : Except Fault Invocation :=
  let (command, rest) := descend depth .program arguments
  match command, words command.flags rest with
  | .program, word :: _ => .error (unknownCommand word)
  | _, _ =>
    match readArguments (command.flags ++ [.help]) .default rest with
    | .error fault => .error fault
    | .ok parsed =>
      if parsed.values.help || !command.isRunnable then
        .ok ⟨command, { parsed.values with help := true }, parsed.others⟩
      else
        match command.checkCount parsed.others.length with
        | .error fault => .error fault
        | .ok _ => .ok ⟨command, parsed.values, parsed.others⟩

end UnoBindgen.Cli
