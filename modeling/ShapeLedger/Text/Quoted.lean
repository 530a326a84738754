/-
Texts as messages quote them: between double quotes, on one line, with what cannot be shown written
as an escape.
-/
import ShapeLedger.Text.Printable

namespace ShapeLedger.Text

/-- The lower-case hexadecimal digits of a code point, as few as possible. -/
def hexadecimal (n : Nat) : List Char := Nat.toDigits 16 n

def quoteEscape (c : Char) : List Char :=
  if c = '"' then ['\\', '"']
  else if c = '\\' then ['\\', '\\']
  else if c = '\n' then ['\\', 'n']
  else if c = '\r' then ['\\', 'r']
  else if c = '\t' then ['\\', 't']
  else if c = '\x00' then ['\\', '0']
  else if isPrintable c then [c]
  else '\\' :: 'u' :: '{' :: hexadecimal c.toNat ++ ['}']

def quote (s : String) : String := String.ofList ('"' :: s.toList.flatMap quoteEscape ++ ['"'])

end ShapeLedger.Text
