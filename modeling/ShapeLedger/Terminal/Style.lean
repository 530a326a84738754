/-
Text with the attributes of a terminal.
-/

namespace ShapeLedger.Terminal

inductive Attribute where
  | bold
  | dim
  | green
  | yellow
  | cyan
deriving DecidableEq, Repr

/-- The number that turns an attribute on. -/
def Attribute.code : Attribute → String
  | bold => "1"
  | dim => "2"
  | green => "32"
  | yellow => "33"
  | cyan => "36"

/-- Whether attributes are written at all. -/
structure Style where
  coloured : Bool
deriving DecidableEq, Repr

namespace Style

/-- Output that goes to no terminal is plain unless the environment forces colours. -/
def ofForce (force : Option String) : Style := ⟨force.any (· ≠ "0")⟩

/-- A text under some attributes. -/
def paint (s : Style) (attributes : List Attribute) (text : String) : String :=
  if s.coloured then
    "\x1b[" ++ ";".intercalate (attributes.map Attribute.code) ++ "m" ++ text ++ "\x1b[0m"
  else text

end Style

end ShapeLedger.Terminal
