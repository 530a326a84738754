/-
Well-formed data that is not what was asked for: what was found, and what was expected.
-/
import ShapeLedger.Binary64.Written
import ShapeLedger.Text.Quoted

namespace ShapeLedger

/-- What was found where something else was expected. -/
inductive Found where
  | null
  | boolean (b : Bool)
  | integer (n : Int)
  | real (x : Binary64)
  | text (s : String)
  | sequence
  | map
deriving DecidableEq, Repr

def Found.describe (style : Binary64.Notation) : Found → String
  | null => "null"
  | boolean b => "boolean `" ++ (if b then "true" else "false") ++ "`"
  | integer n => "integer `" ++ toString n ++ "`"
  | real x => "floating point `" ++ x.text style ++ "`"
  | text s => "string " ++ Text.quote s
  | sequence => "sequence"
  | map => "map"

/-- How well-formed data fails to be what was asked for. -/
inductive Mismatch where
  | invalidType (found : Found) (expected : String)
  | invalidValue (found : Found) (expected : String)
  | missingField (name : String)
  | duplicateField (name : String)
  | invalidLength (n : Nat) (expected : String)
deriving DecidableEq, Repr

def Mismatch.text (style : Binary64.Notation) : Mismatch → String
  | invalidType found expected =>
    "invalid type: " ++ found.describe style ++ ", expected " ++ expected
  | invalidValue found expected =>
    "invalid value: " ++ found.describe style ++ ", expected " ++ expected
  | missingField name => "missing field `" ++ name ++ "`"
  | duplicateField name => "duplicate field `" ++ name ++ "`"
  | invalidLength n expected => "invalid length " ++ toString n ++ ", expected " ++ expected

end ShapeLedger
