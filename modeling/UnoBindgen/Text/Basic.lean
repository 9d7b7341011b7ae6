/-!
# Texts

A text is the list of its characters, so that every law about names, generated lines and file
contents is an induction over a list.  String literals stand for texts through a coercion.

Texts are ordered character by character by code point, which is also the order of their UTF-8
encodings; sorted answers everywhere in this library use that order.
-/

namespace UnoBindgen

/-- A text, as the list of its characters. -/
abbrev Text : Type := List Char

instance : Coe String Text := ⟨String.toList⟩

namespace Text

/-- The text as a native string, for the outside world. -/
def toString (text : Text) : String :=
  String.ofList text

/-- A list of words, written as string literals. -/
def words (literals : List String) : List Text :=
  literals.map String.toList

/-- Join texts, placing a separator between neighbours. -/
def join (separator : Text) : List Text → Text
  | [] => []
  | [part] => part
  | part :: rest => part ++ separator ++ join separator rest

/-- Split a text at every occurrence of a character.  There is always one piece more than there
are occurrences, so the empty text has one empty piece. -/
def splitAt (separator : Char) : Text → List Text
  | [] => [[]]
  | character :: rest =>
    match splitAt separator rest with
    | [] => [[]]
    | piece :: pieces =>
      if character = separator then
        [] :: piece :: pieces
      else
        (character :: piece) :: pieces

/-- The lines of a text: its pieces between line feeds. -/
def lines (text : Text) : List Text :=
  splitAt '\n' text

/-- The blanks inside a line. -/
def isSpacing (character : Char) : Bool :=
  character == ' ' || character == '\t'

/-- Whether a text starts with another. -/
def startsWith (text initial : Text) : Bool :=
  initial.isPrefixOf text

/-- Whether a text ends with another. -/
def endsWith (text final : Text) : Bool :=
  final.isSuffixOf text

/-- What is left of a text behind an initial part, if it has that part. -/
def dropInitial? (text : Text) : Text → Option Text
  | [] => some text
  | expected :: initial =>
    match text with
    | [] => none
    | character :: rest => if character = expected then dropInitial? rest initial else none

/-- A text without its final part, if it has that part, and unchanged otherwise. -/
def dropFinal (text final : Text) : Text :=
  if text.endsWith final then text.take (text.length - final.length) else text

/-- The text before the first occurrence of a character and the text behind it, if it occurs. -/
def cutAt? (separator : Char) : Text → Option (Text × Text)
  | [] => none
  | character :: rest =>
    if character = separator then
      some ([], rest)
    else
      (cutAt? separator rest).map fun (before, after) => (character :: before, after)

/-- Replace every occurrence of a character by a text. -/
def replace (old : Char) (new : Text) (text : Text) : Text :=
  text.flatMap fun character => if character = old then new else [character]

/-- Whether a text occurs somewhere in another. -/
def contains (text part : Text) : Bool :=
  part.isPrefixOf text ||
    match text with
    | [] => false
    | _ :: rest => contains rest part

/-- Remove every line feed at the end of a text. -/
def dropFinalLineFeeds (text : Text) : Text :=
  (text.reverse.dropWhile (· == '\n')).reverse

/-- Whether a text does not come after another: at the first place where they differ it has the
smaller code point, or it ends first. -/
def notAfter : Text → Text → Bool
  | [], _ => true
  | _ :: _, [] => false
  | first :: rest, other :: others =>
    if first = other then notAfter rest others else decide (first.toNat < other.toNat)

/-- Put a text into a sorted list. -/
def insertSorted (text : Text) : List Text → List Text
  | [] => [text]
  | first :: rest =>
    if notAfter text first then text :: first :: rest else first :: insertSorted text rest

/-- Sort texts by code points. -/
def sort (texts : List Text) : List Text :=
  texts.foldr insertSorted []

/-- Keep the first of equal texts. -/
def distinct (texts : List Text) : List Text :=
  texts.eraseDups

/-- The decimal numeral of a natural number. -/
def ofNat (number : Nat) : Text :=
  Nat.toDigits 10 number

/-- The decimal numeral of an integer. -/
def ofInt : Int → Text
  | .ofNat number => ofNat number
  | .negSucc number => '-' :: ofNat (number + 1)

end Text

end UnoBindgen
