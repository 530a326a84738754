/-
What a value looks like from outside: its kind, the shape of its top level, and remarks on it.
Nothing below the elements and members of the top level is looked at.
-/
import ShapeLedger.Analysis.Kind

namespace ShapeLedger

open Json

/-- The top level of a value. -/
inductive Shape where
  | object (keys : List String)
  | array (length : Nat) (sample : List Kind)
  | scalar
deriving DecidableEq, Repr

inductive Insight where
  | emptyObject
  | emptyArray
  | uniformObjects
  | nested (keys : List String)
deriving DecidableEq, Repr

structure Report where
  kind : Kind
  shape : Shape
  insights : List Insight
deriving DecidableEq, Repr

namespace Insight

def text : Insight → String
  | emptyObject => "Empty object detected"
  | emptyArray => "Empty array detected"
  | uniformObjects => "Array contains uniform objects"
  | nested keys => "Nested structures found in: " ++ ", ".intercalate keys

end Insight

namespace Shape

/-- How many leading elements of an array are sampled. -/
def sampleSize : Nat := 5

def of : Value → Shape
  | .object members => object (members.map (·.1))
  | .array elements => array elements.length (Kind.present ((elements.take sampleSize).map Kind.of))
  | _ => scalar

def isScalar : Shape → Bool
  | scalar => true
  | _ => false

def toJson : Shape → Value
  | object keys =>
    .object [("property_count", .number (.integer keys.length)),
      ("keys", .array (keys.map Value.text))]
  | array length sample =>
    .object [("length", .number (.integer length)),
      ("sample_types", .array (sample.map (fun k => .text k.label)))]
  | scalar => .object []

end Shape

/-- The keys of the members that hold containers. -/
def nestedKeys (members : Members) : List String :=
  (members.filter (fun m => (Kind.of m.2).isContainer)).map (·.1)

namespace Insight

/-- The remarks on a value, at most one. -/
def of : Value → List Insight
  | .object [] => [emptyObject]
  | .object members =>
    match nestedKeys members with
    | [] => []
    | keys => [nested keys]
  | .array [] => [emptyArray]
  | .array elements => if elements.all (fun v => Kind.of v = .object) then [uniformObjects] else []
  | _ => []

end Insight

namespace Report

def of (v : Value) : Report := ⟨Kind.of v, Shape.of v, Insight.of v⟩

def toJson (r : Report) : Value :=
  .object [("value_type", .text r.kind.label), ("structure", r.shape.toJson),
    ("insights", .array (r.insights.map (fun i => .text i.text)))]

end Report

end ShapeLedger
