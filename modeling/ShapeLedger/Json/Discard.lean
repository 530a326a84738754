/-
The values that the document reader gives up on its way. Where a document turns out to be wrong, that is all
that stands in the open brackets, and the value before characters that should not be there; and a member that
has the key of an earlier one takes the place of its value.

A value that is given up is freed by a recursion over its parts, on what is left of the stack at that place.
The reader itself needs no stack, and its answers in `parse` say nothing of this.
-/
import ShapeLedger.Analysis.Release
import ShapeLedger.Json.Reader

namespace ShapeLedger.Json

/-! ## One step -/

namespace Frame

/-- The values in an open bracket. -/
def values : Frame → List Value
  | .array done => done
  | .object members _ => members.map (·.2)

/-- The values in an open bracket with one more. -/
def valuesWith (v : Value) : Frame → List Value
  | .array done => v :: done
  | .object members key => (members.put key v).map (·.2)

/-- The value that one with the key that comes next takes the place of. -/
def replaced? : Frame → Option Value
  | .array _ => none
  | .object members key => members.get? key

end Frame

/-- All values in open brackets, each with the number of brackets that are open around it. -/
def openValues : List Frame → List (Nat × Value)
  | [] => []
  | frame :: stack => frame.values.map (stack.length + 1, ·) ++ openValues stack

namespace State

/-- The values that the reader gives up in one step. -/
def discards : State → List (Nat × Value)
  | .wanting stack s =>
    match readOpening none stack s with
    | .error _ => openValues stack
    | .ok _ => []
  | .holding [] v s =>
    match readEnd s with
    | .error _ => [(0, v)]
    | .ok _ => []
  | .holding (frame :: stack) v s =>
    frame.replaced?.toList.map (stack.length + 1, ·) ++
      match readClosing frame stack v s with
      | .error _ => (frame.valuesWith v).map (stack.length + 1, ·) ++ openValues stack
      | .ok _ => []

/-- The state after one step, if the reader goes on. -/
def next? : State → Option State
  | .wanting stack s => (readOpening none stack s).toOption
  | .holding [] _ _ => none
  | .holding (frame :: stack) v s => (readClosing frame stack v s).toOption

theorem next?_length {st next : State} (h : st.next? = some next) : next.rest.length < st.rest.length := by
  have hok {x : Except Fault State} (hx : x.toOption = some next) : x = .ok next := by
    cases x <;> cases hx
    rfl
  match st with
  | .wanting stack s => exact readOpening_length (hok h)
  | .holding (frame :: stack) v s => exact readClosing_length (hok h)

end State

/-! ## Documents -/

/-- Whether no value among these has anything more than `n` levels below it. -/
def within : Nat → List Value → Bool
  | 0, level => level.all (·.children.isEmpty)
  | n + 1, level => level.isEmpty || within n (level.flatMap Value.children)

/-- Whether whatever the reader gives up from a state on can be freed, where `room n` levels of values fit
on the stack while `n` brackets are open. -/
def freesFrom (room : Nat → Nat) (st : State) : Bool :=
  st.discards.all (fun x => within (room x.1) [x.2]) &&
    match _next : st.next? with
    | none => true
    | some next => freesFrom room next
termination_by st.rest.length
decreasing_by exact State.next?_length _next

/-- Whether whatever is given up of a document can be freed. -/
def frees (room : Nat → Nat) (input : Bytes) : Bool := freesFrom room (.wanting [] input)

end ShapeLedger.Json
