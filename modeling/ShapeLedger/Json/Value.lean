/-
JSON values: an object is a list of members in order of first appearance, with one value a key.
-/
import ShapeLedger.Binary64.Basic

namespace ShapeLedger.Json

/-- A number literal denotes an integer when it is one in `[-2^63, 2^64)`, and a binary64 datum
otherwise. -/
inductive Number where
  | integer (n : Int)
  | real (x : Binary64)
deriving DecidableEq, Repr, Inhabited

inductive Value where
  | null
  | boolean (b : Bool)
  | number (n : Number)
  | text (s : String)
  | array (elements : List Value)
  | object (members : List (String × Value))
deriving Inhabited

abbrev Members := List (String × Value)

namespace Members

/-- Gives `key` the value `v`: in place when the key is present, else at the end. -/
def put (key : String) (v : Value) : Members → Members
  | [] => [(key, v)]
  | (k, w) :: r => if k = key then (k, v) :: r else (k, w) :: put key v r

def get? (key : String) (members : Members) : Option Value :=
  (members.find? (fun m => m.1 = key)).map (·.2)

end Members

end ShapeLedger.Json
