import UnoBindgen.Text.Basic

/-!
# White space

The characters that surround a text without belonging to it, and trimming them off.
-/

namespace UnoBindgen.Text

/-- The white-space characters of the Unicode standard. -/
def isBlank (character : Char) : Bool :=
  let code := character.toNat
  (0x09 ≤ code && code ≤ 0x0d) || code == 0x20 || code == 0x85 || code == 0xa0 ||
    code == 0x1680 || (0x2000 ≤ code && code ≤ 0x200a) || code == 0x2028 || code == 0x2029 ||
    code == 0x202f || code == 0x205f || code == 0x3000

/-- Drop white space at the start of a text. -/
def trimLeft (text : Text) : Text :=
  text.dropWhile isBlank

/-- Drop white space at the end of a text. -/
def trimRight (text : Text) : Text :=
  (text.reverse.dropWhile isBlank).reverse

/-- Drop white space at both ends of a text. -/
def trim (text : Text) : Text :=
  trimRight (trimLeft text)

end UnoBindgen.Text
