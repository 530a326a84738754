/-
The kind of a JSON value.
-/
import ShapeLedger.Json.Value

namespace ShapeLedger

open Json

inductive Kind where
  | object
  | array
  | string
  | number
  | boolean
  | null
deriving DecidableEq, Repr

namespace Kind

/-- The kinds in the order in which a report lists them. -/
def all : List Kind := [object, array, string, number, boolean, null]

def of : Value → Kind
  | .object _ => object
  | .array _ => array
  | .text _ => string
  | .number _ => number
  | .boolean _ => boolean
  | .null => null

def label : Kind → String
  | object => "object"
  | array => "array"
  | string => "string"
  | number => "number"
  | boolean => "boolean"
  | null => "null"

def isContainer : Kind → Bool
  | object | array => true
  | _ => false

/-- The kinds that occur in a list, each once, in report order. -/
def present (kinds : List Kind) : List Kind := all.filter (fun k => k ∈ kinds)

theorem mem_all (k : Kind) : k ∈ all := by cases k <;> decide

theorem mem_present {k : Kind} {kinds : List Kind} : k ∈ present kinds ↔ k ∈ kinds := by
  simp [present, mem_all]

end Kind

end ShapeLedger
