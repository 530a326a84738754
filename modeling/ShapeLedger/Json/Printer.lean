/-
JSON text of values: compact, without any blank, and indented by two spaces a level.
-/
import ShapeLedger.Json.Value
import ShapeLedger.Binary64.Written

namespace ShapeLedger.Json

/-- The lower-case hexadecimal digit of a number below sixteen. -/
def hexDigit (n : Nat) : Char := Char.ofNat (if n < 10 then 0x30 + n else 0x57 + n)

/-- Quotes, backslashes and the characters below the space are escaped, by a letter where there is
one; all others stand for themselves. -/
def escape (c : Char) : List Char :=
  if c = '"' then ['\\', '"']
  else if c = '\\' then ['\\', '\\']
  else if ' ' ≤ c then [c]
  else if c.toNat = 0x08 then ['\\', 'b']
  else if c.toNat = 0x09 then ['\\', 't']
  else if c.toNat = 0x0A then ['\\', 'n']
  else if c.toNat = 0x0C then ['\\', 'f']
  else if c.toNat = 0x0D then ['\\', 'r']
  else ['\\', 'u', '0', '0', hexDigit (c.toNat / 16), hexDigit (c.toNat % 16)]

def quoted (s : String) : List Char := '"' :: s.toList.flatMap escape ++ ['"']

/-- A number's text; a datum without a finite value is written as null. -/
def Number.text : Number → String
  | .integer n => toString n
  | .real x => if x.isFinite then x.text Binary64.compactNotation else "null"

/-- How a value is laid out: what stands after a colon, and the line break of each level. -/
structure Layout where
  afterColon : List Char
  newline : Nat → List Char

def compactLayout : Layout := ⟨[], fun _ => []⟩

def indentedLayout : Layout := ⟨[' '], fun level => '\n' :: List.replicate (2 * level) ' '⟩

mutual

/-- The text of a value at a level of nesting. -/
def Value.print (layout : Layout) (level : Nat) : Value → List Char
  | .null => "null".toList
  | .boolean true => "true".toList
  | .boolean false => "false".toList
  | .number n => n.text.toList
  | .text s => quoted s
  | .array [] => ['[', ']']
  | .array (v :: vs) =>
    '[' :: layout.newline (level + 1) ++ (v.print layout (level + 1) ++
      (printElements layout (level + 1) vs ++ (layout.newline level ++ [']'])))
  | .object [] => ['{', '}']
  | .object ((k, v) :: ms) =>
    '{' :: layout.newline (level + 1) ++ (quoted k ++ ':' :: layout.afterColon ++
      (v.print layout (level + 1) ++ (printMembers layout (level + 1) ms ++
        (layout.newline level ++ ['}']))))

/-- The elements after the first. -/
def printElements (layout : Layout) (level : Nat) : List Value → List Char
  | [] => []
  | v :: vs =>
    ',' :: layout.newline level ++ (v.print layout level ++ printElements layout level vs)

/-- The members after the first. -/
def printMembers (layout : Layout) (level : Nat) : List (String × Value) → List Char
  | [] => []
  | (k, v) :: ms =>
    ',' :: layout.newline level ++ (quoted k ++ ':' :: layout.afterColon ++
      (v.print layout level ++ printMembers layout level ms))

end

def Value.compact (v : Value) : String := String.ofList (v.print compactLayout 0)

def Value.indented (v : Value) : String := String.ofList (v.print indentedLayout 0)

end ShapeLedger.Json
