import UnoBindgen.Text.Quoted

/-!
# Message templates

A template is a text with directives that are replaced by texts: `%s` and `%v` show a text as it
is, `%q` quotes it, `%x` and `%X` show its bytes in hexadecimal, `%T` names its type, and `%%` is
a percent sign.  Between the percent sign and the letter a directive may have flags, a width and
a precision.  Mistakes in a template show up in the result instead of failing.
-/

namespace UnoBindgen.Text.Template

/-- The adjustments of a directive. -/
structure Directive where
  sharp : Bool
  zero : Bool
  plus : Bool
  minus : Bool
  space : Bool
  width? : Option Nat
  precision? : Option Nat
  deriving DecidableEq, Repr

/-- A directive without adjustments. -/
def Directive.bare : Directive := ⟨false, false, false, false, false, none, none⟩

/-- The effect of a flag, if the character is one. -/
def Directive.flagged? (directive : Directive) : Char → Option Directive
  | '#' => some { directive with sharp := true }
  | '0' => some { directive with zero := !directive.minus }
  | '+' => some { directive with plus := true }
  | '-' => some { directive with minus := true, zero := false }
  | ' ' => some { directive with space := true }
  | _ => none

/-- Read the flags of a directive. -/
def readFlags (directive : Directive) : Text → Directive × Text
  | [] => (directive, [])
  | character :: rest =>
    match directive.flagged? character with
    | some flagged => readFlags flagged rest
    | none => (directive, character :: rest)

/-- The number written by decimal digits. -/
def readNumber (digits : Text) : Nat :=
  digits.foldl (fun value digit => value * 10 + (digit.toNat - 0x30)) 0

/-- Read a width, if there is one. -/
def readWidth (text : Text) : Option Nat × Text :=
  match text.takeWhile Char.isDigit with
  | [] => (none, text)
  | digits => (some (readNumber digits), text.dropWhile Char.isDigit)

/-- Read a precision, if there is one.  A dot alone is the precision zero. -/
def readPrecision : Text → Option Nat × Text
  | '.' :: rest => (some (readNumber (rest.takeWhile Char.isDigit)), rest.dropWhile Char.isDigit)
  | text => (none, text)

/-- Read the adjustments of a directive. -/
def readDirective (text : Text) : Directive × Text :=
  let (flagged, afterFlags) := readFlags .bare text
  let (width?, afterWidth) := readWidth afterFlags
  let (precision?, rest) := readPrecision afterWidth
  ({ flagged with width? := width?, precision? := precision? }, rest)

/-- Fill a text up to the width of a directive. -/
def pad (directive : Directive) (text : Text) : Text :=
  let missing := directive.width?.getD 0 - text.length
  if directive.minus then
    text ++ List.replicate missing ' '
  else
    List.replicate missing (if directive.zero then '0' else ' ') ++ text

/-- Cut a text at the precision of a directive. -/
def truncate (directive : Directive) (text : Text) : Text :=
  match directive.precision? with
  | some precision => text.take precision
  | none => text

/-- The bytes of a text in UTF-8. -/
def bytes (text : Text) : List Nat :=
  (String.ofList text).toUTF8.toList.map UInt8.toNat

/-- The bytes of a text in hexadecimal.  A space sets the bytes apart, and a sharp sign puts `0x`
in front of them. -/
def hexadecimal (directive : Directive) (text : Text) : Text :=
  let kept :=
    match directive.precision? with
    | some precision => (bytes text).take precision
    | none => bytes text
  let digits := kept.map (hexDigits 2)
  if kept.isEmpty then
    []
  else if directive.space then
    Text.join " " (digits.map fun pair => if directive.sharp then "0x" ++ pair else pair)
  else
    (if directive.sharp then "0x" else "") ++ digits.flatten

/-- Whether a text can be shown between back quotes. -/
def fitsBackQuotes (text : Text) : Bool :=
  text.all fun character =>
    character.toNat != 0xfeff && character.toNat != 0x60 && character.toNat != 0x7f &&
      (character.toNat ≥ 0x20 || character == '\t')

/-- A character between double quotes in ASCII only. -/
def quoteCharAscii (character : Char) : Text :=
  if character.toNat < 0x80 then
    quoteChar character
  else if character.toNat < 0x10000 then
    '\\' :: 'u' :: hexDigits 4 character.toNat
  else
    '\\' :: 'U' :: hexDigits 8 character.toNat

/-- A quoted text: between back quotes if a sharp sign asks for them and the text fits, and in
ASCII only if a plus sign asks for that. -/
def quoted (directive : Directive) (text : Text) : Text :=
  let shown := truncate directive text
  if directive.sharp && fitsBackQuotes shown then
    [Char.ofNat 0x60] ++ shown ++ [Char.ofNat 0x60]
  else if directive.plus then
    '"' :: shown.flatMap quoteCharAscii ++ ['"']
  else
    Text.quote shown

/-- An argument as a directive shows it.  A letter that no text can be shown by is reported
together with the argument. -/
def showArgument (directive : Directive) (letter : Char) (argument : Text) : Text :=
  if letter = 'v' ∧ directive.sharp then
    pad directive (Text.quote (truncate directive argument))
  else
    match letter with
    | 'v' => pad directive (truncate directive argument)
    | 's' => pad directive (truncate directive argument)
    | 'q' => pad directive (quoted directive argument)
    | 'x' => pad directive (hexadecimal directive argument)
    | 'X' => pad directive ((hexadecimal directive argument).map Char.toUpper)
    | 'T' => pad directive (truncate directive "string")
    | _ => "%!" ++ [letter] ++ "(string=" ++ argument ++ ")"

theorem readFlags_length_le
    (text : Text) :
    ∀ directive : Directive, (readFlags directive text).2.length ≤ text.length := by
  induction text with
  | nil => intro directive; simp [readFlags]
  | cons character rest hypothesis =>
    intro directive
    unfold readFlags
    split
    · exact Nat.le_trans (hypothesis _) (Nat.le_succ _)
    · exact Nat.le_refl _

theorem readDirective_length_le
    (text : Text) :
    (readDirective text).2.length ≤ text.length := by
  have flags := readFlags_length_le text .bare
  have width (remaining : Text) : (readWidth remaining).2.length ≤ remaining.length := by
    unfold readWidth
    split
    · simp
    · exact (List.dropWhile_suffix Char.isDigit).length_le
  have precision (remaining : Text) :
      (readPrecision remaining).2.length ≤ remaining.length := by
    unfold readPrecision
    split
    · exact Nat.le_trans (List.dropWhile_suffix Char.isDigit).length_le (by simp)
    · simp
  exact Nat.le_trans (precision _) (Nat.le_trans (width _) flags)

theorem readDirective_shortens
    {rest remaining : Text}
    {directive : Directive}
    {letter : Char}
    (read : readDirective rest = (directive, letter :: remaining)) :
    remaining.length < rest.length := by
  have bound := readDirective_length_le rest
  rw [read] at bound
  exact bound

/-- The arguments that no directive asked for. -/
def surplus (arguments : List Text) : Text :=
  if arguments.isEmpty then
    []
  else
    "%!(EXTRA " ++ Text.join ", " (arguments.map fun argument => "string=" ++ argument) ++ ")"

/-- Fill a template with arguments, in order. -/
def fill (template : Text) (arguments : List Text) : Text :=
  match template with
  | [] => surplus arguments
  | character :: rest =>
    if character = '%' then
      match _read : readDirective rest with
      | (_, []) => "%!(NOVERB)" ++ surplus arguments
      | (directive, letter :: remaining) =>
        if letter = '%' then
          '%' :: fill remaining arguments
        else
          match arguments with
          | [] => "%!" ++ [letter] ++ "(MISSING)" ++ fill remaining []
          | argument :: others =>
            showArgument directive letter argument ++ fill remaining others
    else
      character :: fill rest arguments
termination_by template.length
decreasing_by
  · have bound := readDirective_shortens _read
    simp only [List.length_cons]
    omega
  · have bound := readDirective_shortens _read
    simp only [List.length_cons]
    omega
  · have bound := readDirective_shortens _read
    simp only [List.length_cons]
    omega
  · exact Nat.lt_succ_self _

end UnoBindgen.Text.Template
