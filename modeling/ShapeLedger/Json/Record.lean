/-
Records read straight from JSON text. A form names the fields of a record and how each is read; the
text is an object with those members, or an array with their values in order. Members that the form
does not name are passed over.
-/
import ShapeLedger.Json.Skip
import ShapeLedger.Mismatch

namespace ShapeLedger.Json

open Ascii

/-! ## Complaints -/

/-- A value as a complaint names it. -/
def found : Value → Found
  | .null => .null
  | .boolean b => .boolean b
  | .number (.integer n) => .integer n
  | .number (.real x) => .real x
  | .text s => .text s
  | .array _ => .sequence
  | .object _ => .map

inductive Complaint where
  | malformed (reason : Reason)
  | mismatch (m : Mismatch)
deriving DecidableEq, Repr

def Complaint.text : Complaint → String
  | malformed reason => reason.text
  | mismatch m => m.text Binary64.compactNotation

/-- A complaint, with the bytes of the input that follow the place it is made at. -/
structure Flaw where
  complaint : Complaint
  unread : Nat
deriving DecidableEq, Repr

def Flaw.ofFault (f : Fault) : Flaw := ⟨.malformed f.reason, f.unread⟩

/-- The part of a record whose value a complaint is about. -/
inductive Part where
  | member (key : String)
  | element (index : Nat)
deriving DecidableEq, Repr

def Part.text : Part → String
  | member key => key
  | element index => "[" ++ toString index ++ "]"

/-- A refused record. -/
structure RecordError where
  part : Option Part
  complaint : Complaint
  position : Position
deriving DecidableEq, Repr

namespace RecordError

def message (e : RecordError) : String :=
  (match e.part with
    | none => ""
    | some part => part.text ++ ": ") ++ e.complaint.text ++ e.position.suffix

end RecordError

/-- A flaw, and the part of the record that it lies in. -/
abbrev Located := Option Part × Flaw

/-! ## Values of fields -/

abbrev Reading (α : Type) := Except Flaw (α × Bytes)

def malformed {α : Type} (f : Fault) : Reading α := .error (.ofFault f)

/-- What stands where a value was expected; containers are not entered. -/
def readFound : Bytes → Except Fault (Found × Bytes)
  | [] => .error ⟨.valueEnds, 0⟩
  | b :: r =>
    if b = openBracket then .ok (.sequence, b :: r)
    else if b = openBrace then .ok (.map, b :: r)
    else (readScalar (b :: r)).map (fun (v, t) => (found v, t))

/-- The complaint that the value which starts here is not of the expected type. -/
def unexpected (expected : String) (s : Bytes) : Flaw :=
  match readFound s with
  | .error f => .ofFault f
  | .ok (what, r) => ⟨.mismatch (.invalidType what expected), r.length⟩

def readText (s : Bytes) : Reading String :=
  match skipSpace s with
  | [] => malformed ⟨.valueEnds, 0⟩
  | b :: r =>
    if b = quote then (readString r).mapError .ofFault
    else .error (unexpected "a string" (b :: r))

/-- A text, or null for none. -/
def readOptionalText (s : Bytes) : Reading (Option String) :=
  match skipSpace s with
  | [] => malformed ⟨.valueEnds, 0⟩
  | b :: r =>
    if b = 0x6E then ((readWord [0x75, 0x6C, 0x6C] r).mapError .ofFault).map (none, ·)
    else (readText (b :: r)).map (fun (t, u) => (some t, u))

/-- A number of any kind, as a binary64 datum. -/
def readReal (s : Bytes) : Reading Binary64 :=
  match skipSpace s with
  | [] => malformed ⟨.valueEnds, 0⟩
  | b :: r =>
    if b = minus || isDigit b then
      match readNumber (b :: r) with
      | .error f => malformed f
      | .ok (.integer n, t) => .ok (Binary64.ofInt n, t)
      | .ok (.real x, t) => .ok (x, t)
    else .error (unexpected "f64" (b :: r))

/-- An integer of 64 bits with a sign; numbers with a fraction or an exponent are none. -/
def readInteger (s : Bytes) : Reading Int :=
  match skipSpace s with
  | [] => malformed ⟨.valueEnds, 0⟩
  | b :: r =>
    if b = minus || isDigit b then
      match readNumber (b :: r) with
      | .error f => malformed f
      | .ok (.integer n, t) =>
        if n < twoPow 63 then .ok (n, t)
        else .error ⟨.mismatch (.invalidValue (.integer n) "i64"), t.length⟩
      | .ok (.real x, t) => .error ⟨.mismatch (.invalidType (.real x) "i64"), t.length⟩
    else .error (unexpected "i64" (b :: r))

theorem mapError_eq_ok {ε δ α : Type} {x : Except ε α} {f : ε → δ} {a : α}
    (h : x.mapError f = .ok a) : x = .ok a := by
  cases x with
  | error e => cases h
  | ok b => cases h; rfl

theorem readText_length {s r : Bytes} {t : String} (h : readText s = .ok (t, r)) :
    r.length < s.length := by
  unfold readText at h
  split at h
  · cases h
  · next b u hs =>
    have := skipSpace_cons_length hs
    split at h
    · have := readString_length (mapError_eq_ok h); omega
    · cases h

theorem readOptionalText_length {s r : Bytes} {t : Option String}
    (h : readOptionalText s = .ok (t, r)) : r.length < s.length := by
  unfold readOptionalText at h
  split at h
  · cases h
  · next b u hs =>
    have hu := skipSpace_cons_length hs
    have hb := skipSpace_length_le s
    rw [hs] at hb
    split at h
    · obtain ⟨a, ha, he⟩ := map_eq_ok h
      have := readWord_length (mapError_eq_ok ha)
      cases he; omega
    · obtain ⟨a, ha, he⟩ := map_eq_ok h
      have := readText_length ha
      cases he; omega

theorem readReal_length {s r : Bytes} {x : Binary64} (h : readReal s = .ok (x, r)) :
    r.length < s.length := by
  unfold readReal at h
  split at h
  · cases h
  · next b u hs =>
    have hb := skipSpace_length_le s
    rw [hs] at hb
    split at h
    · split at h
      · cases h
      · next hn => have := readNumber_length hn; cases h; omega
      · next hn => have := readNumber_length hn; cases h; omega
    · cases h

theorem readInteger_length {s r : Bytes} {n : Int} (h : readInteger s = .ok (n, r)) :
    r.length < s.length := by
  unfold readInteger at h
  split at h
  · cases h
  · next b u hs =>
    have hb := skipSpace_length_le s
    rw [hs] at hb
    split at h
    · split at h
      · cases h
      · next hn =>
        have := readNumber_length hn
        split at h <;> cases h
        omega
      · cases h
    · cases h

/-! ## Forms -/

/-- A field of a record: whether a draft has it already, and how its value goes into one. -/
structure Field (σ : Type) where
  name : String
  isSet : σ → Bool
  read : σ → Bytes → Reading σ
  shortens : ∀ {d d' : σ} {s r : Bytes}, read d s = .ok (d', r) → r.length < s.length

/-- A field made from a reader of its values. -/
def Field.make {σ α : Type} (name : String) (isSet : σ → Bool) (set : σ → α → σ)
    (reader : Bytes → Reading α)
    (shortens : ∀ {a : α} {s r : Bytes}, reader s = .ok (a, r) → r.length < s.length) :
    Field σ where
  name := name
  isSet := isSet
  read := fun d s => (reader s).map (fun (a, r) => (set d a, r))
  shortens := by
    intro d d' s r h
    obtain ⟨a, ha, he⟩ := map_eq_ok h
    cases he
    exact shortens ha

/-- A kind of record: how messages name it and count its fields, the fields, and how a draft of it
is completed, or which field it lacks. -/
structure Form (σ α : Type) where
  title : String
  count : String
  fields : List (Field σ)
  blank : σ
  complete : σ → Except String α

variable {σ α : Type}

/-- What is left behind a bracket that comes next, and here otherwise. -/
def afterClose (close : UInt8) (s : Bytes) : Bytes :=
  match skipSpace s with
  | [] => []
  | b :: r => if b = close then r else b :: r

def plainly (f : Fault) : Located := (none, .ofFault f)

/-- The value of a member, from behind its colon. -/
def Form.readMember (form : Form σ α) (draft : σ) (key : String) (s : Bytes) : Reading σ :=
  match form.fields.find? (fun f => f.name = key) with
  | some field => field.read draft s
  | none => ((skipValue s).mapError .ofFault).map (draft, ·)

/-- Whether a draft has a value for this key already. -/
def Form.repeats (form : Form σ α) (draft : σ) (key : String) : Bool :=
  match form.fields.find? (fun f => f.name = key) with
  | some field => field.isSet draft
  | none => false

theorem skipRun_length {st : SkipState} {r : Bytes} (h : skipRun st = .ok r) :
    2 * r.length ≤ st.size := by
  fun_induction skipRun st with
  | case1 => cases h; exact Nat.le_refl _
  | case2 => cases h
  | case3 _ _ _ _ hn ih =>
    have := skipAfter_size hn
    have := ih h
    simp only [SkipState.size] at *
    omega
  | case4 => cases h
  | case5 _ _ _ _ hn ih =>
    have := skipInside_size hn
    have := ih h
    simp only [SkipState.size] at *
    omega
  | case6 => cases h
  | case7 _ _ _ hn ih =>
    have := skipOpening_size hn
    have := ih h
    simp only [SkipState.size] at *
    omega

theorem skipValue_length {s r : Bytes} (h : skipValue s = .ok r) : r.length ≤ s.length := by
  have := skipRun_length h
  simp only [SkipState.size] at this
  omega

theorem Form.readMember_length {form : Form σ α} {draft draft' : σ} {key : String} {s r : Bytes}
    (h : form.readMember draft key s = .ok (draft', r)) : r.length ≤ s.length := by
  unfold Form.readMember at h
  split at h
  · next field _ => exact Nat.le_of_lt (field.shortens h)
  · obtain ⟨t, ht, he⟩ := map_eq_ok h
    cases he
    exact skipValue_length (mapError_eq_ok ht)

/-- One member, from behind the quote of its key, and what comes after it. -/
def Form.readItem (form : Form σ α) (draft : σ) (s : Bytes) : Except Located (σ × Turn) :=
  match readString s with
  | .error f => .error (plainly f)
  | .ok (key, r) =>
    if form.repeats draft key then
      .error (none, ⟨.mismatch (.duplicateField key), (afterClose closeBrace r).length⟩)
    else
      match readColon r with
      | .error f => .error (plainly f)
      | .ok t =>
        match form.readMember draft key t with
        | .error flaw => .error (some (.member key), flaw)
        | .ok (draft, u) => ((nextMember u).mapError plainly).map (draft, ·)

theorem Form.readItem_length {form : Form σ α} {draft draft' : σ} {s : Bytes} {turn : Turn}
    (h : form.readItem draft s = .ok (draft', turn)) : turn.rest.length < s.length := by
  unfold Form.readItem at h
  split at h
  · cases h
  · next hk =>
    split at h
    · cases h
    · split at h
      · cases h
      · next hc =>
        split at h
        · cases h
        · next hm =>
          obtain ⟨t, ht, he⟩ := map_eq_ok h
          have := readString_length hk
          have := readColon_length hc
          have := Form.readMember_length hm
          have := nextMember_length (mapError_eq_ok ht)
          cases he; omega

/-- A draft made a record at the end of its text. -/
def Form.finish (form : Form σ α) (draft : σ) (r : Bytes) : Except Located (α × Bytes) :=
  match form.complete draft with
  | .ok a => .ok (a, r)
  | .error name => .error (none, ⟨.mismatch (.missingField name), r.length⟩)

def Form.readMembers (form : Form σ α) (draft : σ) (turn : Turn) : Except Located (α × Bytes) :=
  match turn with
  | .done r => form.finish draft r
  | .item s =>
    match _item : form.readItem draft s with
    | .error e => .error e
    | .ok (draft, next) => form.readMembers draft next
termination_by turn.rest.length
decreasing_by exact Form.readItem_length _item

/-- The end of an array whose elements have all been read. -/
def readArrayEnd (s : Bytes) : Except Fault Bytes :=
  match skipSpace s with
  | [] => .error ⟨.listEnds, 0⟩
  | b :: r =>
    if b = closeBracket then .ok r
    else if b = comma then
      match skipSpace r with
      | [] => .error ⟨.trailingCharacters, 0⟩
      | c :: t =>
        .error ⟨if c = closeBracket then .trailingComma else .trailingCharacters, t.length⟩
    else .error ⟨.trailingCharacters, r.length⟩

/-- The values of the remaining fields, the first of them at `index`. -/
def Form.readElements (form : Form σ α) (draft : σ) (index : Nat) (s : Bytes) :
    List (Field σ) → Except Located (α × Bytes)
  | [] =>
    match readArrayEnd s with
    | .error f => .error (plainly f)
    | .ok r => form.finish draft r
  | field :: fields =>
    match if index = 0 then firstElement s else nextElement s with
    | .error f => .error (plainly f)
    | .ok (.done r) =>
      .error (none, ⟨.mismatch (.invalidLength index (form.title ++ " with " ++ form.count)),
        r.length⟩)
    | .ok (.item t) =>
      match field.read draft t with
      | .error flaw => .error (some (.element index), flaw)
      | .ok (draft, u) => form.readElements draft (index + 1) u fields

/-- A record, from the first byte of its text on. -/
def Form.read (form : Form σ α) (s : Bytes) : Except Located (α × Bytes) :=
  match skipSpace s with
  | [] => .error (plainly ⟨.valueEnds, 0⟩)
  | b :: r =>
    if b = openBrace then
      match firstMember r with
      | .error f => .error (plainly f)
      | .ok turn => form.readMembers form.blank turn
    else if b = openBracket then form.readElements form.blank 0 r form.fields
    else .error (none, unexpected form.title (b :: r))

/-- The record that a whole text stands for. -/
def Form.parse (form : Form σ α) (input : Bytes) : Except RecordError α :=
  let whole : Except Located α :=
    match form.read input with
    | .error e => .error e
    | .ok (a, r) => ((readEnd r).mapError plainly).map (fun _ => a)
  whole.mapError (fun (part, flaw) =>
    ⟨part, flaw.complaint, Position.ofUnread input flaw.unread⟩)

end ShapeLedger.Json
