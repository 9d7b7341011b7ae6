import UnoBindgen.Text.Basic

/-!
# Identifiers

An identifier is an ASCII letter or an underscore followed by letters, digits and underscores.
A qualified identifier is a dotted sequence of identifiers.
-/

namespace UnoBindgen

namespace Identifier

/-- An ASCII letter or an underscore. -/
def isInitial (character : Char) : Bool :=
  character.isAlpha || character == '_'

/-- An ASCII letter, an ASCII digit or an underscore. -/
def isFollowing (character : Char) : Bool :=
  isInitial character || character.isDigit

end Identifier

/-- Whether a text is an identifier. -/
def isIdentifier : Text → Bool
  | [] => false
  | first :: rest => Identifier.isInitial first && rest.all Identifier.isFollowing

/-- Whether a text is a dotted sequence of identifiers. -/
def isQualifiedIdentifier (text : Text) : Bool :=
  (text.splitAt '.').all isIdentifier

end UnoBindgen
