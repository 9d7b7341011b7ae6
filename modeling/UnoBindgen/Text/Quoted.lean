import UnoBindgen.Text.Basic
import UnoBindgen.Text.Printable

/-!
# Quoted texts

The form in which messages show a text: between double quotes, with quotes, backslashes and
every unprintable character escaped, so that the text can be read off the message exactly.
-/

namespace UnoBindgen.Text

/-- The lower-case hexadecimal digit of a number below sixteen. -/
def hexDigit (value : Nat) : Char :=
  if value < 10 then Char.ofNat (0x30 + value) else Char.ofNat (0x57 + value)

/-- The last `width` hexadecimal digits of a number, the most significant first. -/
def hexDigits : Nat → Nat → Text
  | 0, _ => []
  | width + 1, number => hexDigits width (number / 16) ++ [hexDigit (number % 16)]

/-- The named escape of a control character, if it has one. -/
def controlEscape? (character : Char) : Option Char :=
  match character.toNat with
  | 0x07 => some 'a'
  | 0x08 => some 'b'
  | 0x0c => some 'f'
  | 0x0a => some 'n'
  | 0x0d => some 'r'
  | 0x09 => some 't'
  | 0x0b => some 'v'
  | _ => none

/-- How a character is written between double quotes. -/
def quoteChar (character : Char) : Text :=
  if character = '"' then
    ['\\', '"']
  else if character = '\\' then
    ['\\', '\\']
  else if isPrintable character then
    [character]
  else
    match controlEscape? character with
    | some letter => ['\\', letter]
    | none =>
      let code := character.toNat
      if code < 0x20 || code == 0x7f then
        '\\' :: 'x' :: hexDigits 2 code
      else if code < 0x10000 then
        '\\' :: 'u' :: hexDigits 4 code
      else
        '\\' :: 'U' :: hexDigits 8 code

/-- A text between double quotes. -/
def quote (text : Text) : Text :=
  '"' :: text.flatMap quoteChar ++ ['"']

end UnoBindgen.Text
