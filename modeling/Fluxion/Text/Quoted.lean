import Fluxion.Text.Printable

/-!
# Quoted text

A text is quoted so that a reader sees exactly which characters it holds.
The quotes are single, unless the text holds a single quote and no double
one. Inside, the backslash and the chosen quote are escaped, layout characters
have short escapes, and any other character that is not printable is written
by its code point.
-/

namespace Fluxion.Text

/-- The single quote. -/
def singleQuote : Char :=
  '\x27'

/-- The double quote. -/
def doubleQuote : Char :=
  '\x22'

/-- The backslash, which starts every escape. -/
def backslash : Char :=
  '\x5c'

/-- The hexadecimal digits of a number, with zeros in front up to a width. -/
def hexDigits (width number : Nat) : List Char :=
  let digits := Nat.toDigits 16 number
  List.replicate (width - digits.length) '0' ++ digits

/-- A code point as an escape, the shortest of three widths that holds it. -/
def codePointEscape (code : Nat) : List Char :=
  if code < 0x100 then backslash :: 'x' :: hexDigits 2 code
  else if code < 0x10000 then backslash :: 'u' :: hexDigits 4 code
  else backslash :: 'U' :: hexDigits 8 code

/-- One character between quotes. -/
def escaped (quote c : Char) : List Char :=
  if c == quote || c == backslash then [backslash, c]
  else if c == '\n' then [backslash, 'n']
  else if c == '\r' then [backslash, 'r']
  else if c == '\t' then [backslash, 't']
  else if isPrintable c then [c]
  else codePointEscape c.toNat

/-- The quote chosen for a text. -/
def quoteFor (text : List Char) : Char :=
  if text.contains singleQuote && !text.contains doubleQuote then doubleQuote else singleQuote

/-- A text between quotes. -/
def quoted (text : String) : String :=
  let characters := text.toList
  let quote := quoteFor characters
  String.ofList (quote :: characters.flatMap (escaped quote) ++ [quote])

end Fluxion.Text
