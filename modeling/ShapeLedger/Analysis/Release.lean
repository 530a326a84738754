/-
Taking a value apart with a work list in place of recursion: the containers met are opened onto the
list, and the last entry of the list is always the next to be taken.
-/
import ShapeLedger.Json.Value

namespace ShapeLedger.Json

/-- The values directly inside a value. -/
def Value.children : Value → List Value
  | .array elements => elements
  | .object members => members.map (·.2)
  | _ => []

mutual

/-- How many values a value is made of, itself included. -/
def Value.nodes : Value → Nat
  | .array elements => nodesOfElements elements + 1
  | .object members => nodesOfMembers members + 1
  | _ => 1

def nodesOfElements : List Value → Nat
  | [] => 0
  | v :: vs => v.nodes + nodesOfElements vs

def nodesOfMembers : List (String × Value) → Nat
  | [] => 0
  | (_, v) :: ms => v.nodes + nodesOfMembers ms

end

theorem nodesOfElements_append (xs ys : List Value) :
    nodesOfElements (xs ++ ys) = nodesOfElements xs + nodesOfElements ys := by
  induction xs with
  | nil => simp [nodesOfElements]
  | cons v vs ih => simp [nodesOfElements, ih, Nat.add_assoc]

theorem nodesOfElements_reverse (xs : List Value) :
    nodesOfElements xs.reverse = nodesOfElements xs := by
  induction xs with
  | nil => rfl
  | cons v vs ih =>
    simp [nodesOfElements, nodesOfElements_append, ih, Nat.add_comm]

theorem nodesOfElements_values (ms : List (String × Value)) :
    nodesOfElements (ms.map (·.2)) = nodesOfMembers ms := by
  induction ms with
  | nil => rfl
  | cons m ms ih => simp [nodesOfElements, nodesOfMembers, ih]

/-- A value is one more than what its children are made of. -/
theorem Value.nodes_eq (v : Value) : v.nodes = nodesOfElements v.children + 1 := by
  cases v <;> simp [Value.nodes, Value.children, nodesOfElements, nodesOfElements_values]

/-- The values taken from a work list, in the order in which they are taken; `pending` has its last
entry first. -/
def release (pending : List Value) : List Value :=
  match pending with
  | [] => []
  | v :: rest => v :: release (v.children.reverse ++ rest)
termination_by nodesOfElements pending
decreasing_by
  simp only [nodesOfElements_append, nodesOfElements_reverse, nodesOfElements, Value.nodes_eq]
  omega

end ShapeLedger.Json
