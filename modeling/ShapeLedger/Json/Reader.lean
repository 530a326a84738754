/-
The document reader. It keeps the brackets that are open on a stack of its own, so the depth of a
document costs it no recursion, and every step leaves less of the input. A limit on that depth is
optional.
-/
import ShapeLedger.Json.Numeral
import ShapeLedger.Json.StringLiteral

namespace ShapeLedger.Json

open Ascii

/-! ## Scalars and keys -/

/-- A value that is no container, from its first byte on. -/
def readScalar : Bytes → Except Fault (Value × Bytes)
  | [] => .error ⟨.valueEnds, 0⟩
  | b :: r =>
    if b = 0x6E then (readWord [0x75, 0x6C, 0x6C] r).map (.null, ·)
    else if b = 0x74 then (readWord [0x72, 0x75, 0x65] r).map (.boolean true, ·)
    else if b = 0x66 then (readWord [0x61, 0x6C, 0x73, 0x65] r).map (.boolean false, ·)
    else if b = quote then (readString r).map (fun (s, t) => (.text s, t))
    else if b = minus || isDigit b then (readNumber (b :: r)).map (fun (n, t) => (.number n, t))
    else .error ⟨.expectedValue, r.length⟩

/-- A key and its colon, from behind the opening quote. -/
def readKey (s : Bytes) : Except Fault (String × Bytes) :=
  match readString s with
  | .error f => .error f
  | .ok (key, r) => (readColon r).map (key, ·)

theorem map_eq_ok {ε α β : Type} {x : Except ε α} {f : α → β} {b : β} (h : x.map f = .ok b) :
    ∃ a, x = .ok a ∧ f a = b := by
  cases x with
  | error e => cases h
  | ok a => exact ⟨a, rfl, Except.ok.inj h⟩

theorem bind_eq_ok {ε α β : Type} {x : Except ε α} {f : α → Except ε β} {b : β} (h : x >>= f = .ok b) :
    ∃ a, x = .ok a ∧ f a = .ok b := by
  cases x with
  | error e => cases h
  | ok a => exact ⟨a, rfl, h⟩

theorem readScalar_length {s r : Bytes} {v : Value} (h : readScalar s = .ok (v, r)) :
    r.length < s.length := by
  unfold readScalar at h
  split at h
  · cases h
  · rw [List.length_cons]
    split at h
    · obtain ⟨t, ht, he⟩ := map_eq_ok h
      cases he; have := readWord_length ht; omega
    · split at h
      · obtain ⟨t, ht, he⟩ := map_eq_ok h
        cases he; have := readWord_length ht; omega
      · split at h
        · obtain ⟨t, ht, he⟩ := map_eq_ok h
          cases he; have := readWord_length ht; omega
        · split at h
          · obtain ⟨t, ht, he⟩ := map_eq_ok h
            cases he; have := readString_length ht; omega
          · split at h
            · obtain ⟨t, ht, he⟩ := map_eq_ok h
              cases he; have := readNumber_length ht; rw [List.length_cons] at this; omega
            · cases h

theorem readKey_length {s r : Bytes} {k : String} (h : readKey s = .ok (k, r)) :
    r.length < s.length := by
  unfold readKey at h
  split at h
  · cases h
  · next hs =>
    obtain ⟨t, ht, he⟩ := map_eq_ok h
    cases he
    have := readString_length hs
    have := readColon_length ht
    omega

/-! ## Containers -/

/-- An open bracket with what has been read inside it: elements newest first, or the members
complete so far and the key whose value comes next. -/
inductive Frame where
  | array (done : List Value)
  | object (members : Members) (key : String)

/-- Either a value has to be read next, or one has just been read; `stack` holds the open brackets,
innermost first. -/
inductive State where
  | wanting (stack : List Frame) (rest : Bytes)
  | holding (stack : List Frame) (v : Value) (rest : Bytes)

def State.rest : State → Bytes
  | .wanting _ r | .holding _ _ r => r

/-- Whether one more bracket may be opened. -/
def mayOpen (limit : Option Nat) (stack : List Frame) : Bool :=
  match limit with
  | none => true
  | some n => stack.length < n

/-- From behind `[`. -/
def openArray (stack : List Frame) (s : Bytes) : Except Fault State :=
  match firstElement s with
  | .error f => .error f
  | .ok (.done r) => .ok (.holding stack (.array []) r)
  | .ok (.item r) => .ok (.wanting (.array [] :: stack) r)

/-- From behind an opening brace. -/
def openObject (stack : List Frame) (s : Bytes) : Except Fault State :=
  match firstMember s with
  | .error f => .error f
  | .ok (.done r) => .ok (.holding stack (.object []) r)
  | .ok (.item r) => (readKey r).map (fun (key, t) => .wanting (.object [] key :: stack) t)

/-- Reads a scalar, or opens a container. -/
def readOpening (limit : Option Nat) (stack : List Frame) (s : Bytes) : Except Fault State :=
  match skipSpace s with
  | [] => .error ⟨.valueEnds, 0⟩
  | b :: r =>
    if b = openBracket then
      if mayOpen limit stack then openArray stack r else .error ⟨.nestingTooDeep, r.length⟩
    else if b = openBrace then
      if mayOpen limit stack then openObject stack r else .error ⟨.nestingTooDeep, r.length⟩
    else (readScalar (b :: r)).map (fun (v, t) => .holding stack v t)

/-- Puts a value into the innermost open bracket, and closes that or goes on in it. -/
def readClosing (frame : Frame) (stack : List Frame) (v : Value) (s : Bytes) :
    Except Fault State :=
  match frame with
  | .array done =>
    match nextElement s with
    | .error f => .error f
    | .ok (.done r) => .ok (.holding stack (.array (v :: done).reverse) r)
    | .ok (.item r) => .ok (.wanting (.array (v :: done) :: stack) r)
  | .object members key =>
    match nextMember s with
    | .error f => .error f
    | .ok (.done r) => .ok (.holding stack (.object (members.put key v)) r)
    | .ok (.item r) =>
      (readKey r).map (fun (next, t) => .wanting (.object (members.put key v) next :: stack) t)

theorem openArray_length {stack : List Frame} {s : Bytes} {st : State}
    (h : openArray stack s = .ok st) : st.rest.length ≤ s.length := by
  unfold openArray at h
  split at h
  · cases h
  · next hf => have := firstElement_length hf; cases h; exact this
  · next hf => have := firstElement_length hf; cases h; exact this

theorem openObject_length {stack : List Frame} {s : Bytes} {st : State}
    (h : openObject stack s = .ok st) : st.rest.length < s.length := by
  unfold openObject at h
  split at h
  · cases h
  · next hf => have := firstMember_length hf; cases h; exact this
  · next hf =>
    obtain ⟨t, ht, he⟩ := map_eq_ok h
    have := firstMember_length hf
    have := readKey_length ht
    cases he; simp only [State.rest, Turn.rest] at *; omega

theorem readOpening_length {limit : Option Nat} {stack : List Frame} {s : Bytes} {st : State}
    (h : readOpening limit stack s = .ok st) : st.rest.length < s.length := by
  unfold readOpening at h
  split at h
  · cases h
  · next b r hs =>
    have hr := skipSpace_cons_length hs
    split at h
    · split at h
      · have := openArray_length h; omega
      · cases h
    · split at h
      · split at h
        · have := openObject_length h; omega
        · cases h
      · obtain ⟨t, ht, he⟩ := map_eq_ok h
        have := readScalar_length ht
        have := skipSpace_length_le s
        rw [hs] at this
        cases he; simp only [State.rest] at *; omega

theorem readClosing_length {frame : Frame} {stack : List Frame} {v : Value} {s : Bytes}
    {st : State} (h : readClosing frame stack v s = .ok st) : st.rest.length < s.length := by
  unfold readClosing at h
  split at h
  · split at h
    · cases h
    · next hf => have := nextElement_length hf; cases h; exact this
    · next hf => have := nextElement_length hf; cases h; exact this
  · split at h
    · cases h
    · next hf => have := nextMember_length hf; cases h; exact this
    · next hf =>
      obtain ⟨t, ht, he⟩ := map_eq_ok h
      have := nextMember_length hf
      have := readKey_length ht
      cases he; simp only [State.rest, Turn.rest] at *; omega

/-! ## Documents -/

/-- Goes on until every bracket is closed: the value, and what follows it. -/
def run (limit : Option Nat) (st : State) : Except Fault (Value × Bytes) :=
  match st with
  | .wanting stack s =>
    match _open : readOpening limit stack s with
    | .error f => .error f
    | .ok next => run limit next
  | .holding [] v s => .ok (v, s)
  | .holding (frame :: stack) v s =>
    match _close : readClosing frame stack v s with
    | .error f => .error f
    | .ok next => run limit next
termination_by st.rest.length
decreasing_by
  · exact readOpening_length _open
  · exact readClosing_length _close

/-- One value with nothing but blanks around it. -/
def readDocument (limit : Option Nat) (input : Bytes) : Except Fault Value :=
  match run limit (.wanting [] input) with
  | .error f => .error f
  | .ok (v, r) => (readEnd r).map (fun _ => v)

/-- The value of a document, or the place where it is wrong. -/
def parse (limit : Option Nat) (input : Bytes) : Except Error Value :=
  (readDocument limit input).mapError (Error.locate input)

end ShapeLedger.Json
