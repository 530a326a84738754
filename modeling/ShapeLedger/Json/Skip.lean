/-
Passing over a value that nobody asked for. Numbers may have any size, and strings are not decoded:
bytes that are no UTF-8 and lone surrogates pass.
-/
import ShapeLedger.Json.Reader

namespace ShapeLedger.Json

open Ascii

/-! ## Scalars -/

/-- An escape that is passed over, from behind its backslash. -/
def skipEscape : Bytes → Except Fault Bytes
  | [] => .error ⟨.stringEnds, 0⟩
  | b :: r =>
    if b = lowerU then (readHex r).map (·.2)
    else
      match escaped? b with
      | some _ => .ok r
      | none => .error ⟨.invalidEscape, r.length⟩

theorem skipEscape_length {s r : Bytes} (h : skipEscape s = .ok r) : r.length < s.length := by
  unfold skipEscape at h
  split at h
  · cases h
  · split at h
    · obtain ⟨a, ha, he⟩ := map_eq_ok h
      have := readHex_length ha
      cases he; rw [List.length_cons]; omega
    · split at h <;> cases h
      simp

/-- What follows a literal, from behind its opening quote. A control character is reported in front
of itself. -/
def skipString (s : Bytes) : Except Fault Bytes :=
  match s with
  | [] => .error ⟨.stringEnds, 0⟩
  | b :: r =>
    if b = quote then .ok r
    else if b = backslash then
      match _escape : skipEscape r with
      | .error f => .error f
      | .ok t => skipString t
    else if b < space then .error ⟨.controlCharacter, r.length + 1⟩
    else skipString r
termination_by s.length
decreasing_by
  · have := skipEscape_length _escape
    rw [List.length_cons]; omega
  · simp

theorem skipString_length {s r : Bytes} (h : skipString s = .ok r) : r.length < s.length := by
  fun_induction skipString s with
  | case1 => cases h
  | case2 => cases h; simp
  | case3 => cases h
  | case4 r t ht _ ih =>
    have := skipEscape_length ht
    have := ih h
    rw [List.length_cons]; omega
  | case5 => cases h
  | case6 b r _ _ _ ih =>
    have := ih h
    rw [List.length_cons]; omega

def skipScalar : Bytes → Except Fault Bytes
  | [] => .error ⟨.valueEnds, 0⟩
  | b :: r =>
    if b = 0x6E then readWord [0x75, 0x6C, 0x6C] r
    else if b = 0x74 then readWord [0x72, 0x75, 0x65] r
    else if b = 0x66 then readWord [0x61, 0x6C, 0x73, 0x65] r
    else if b = quote then skipString r
    else if b = minus || isDigit b then (readNumeral .invalidNumber (b :: r)).map (·.2)
    else .error ⟨.expectedValue, r.length⟩

theorem skipScalar_length {s r : Bytes} (h : skipScalar s = .ok r) : r.length < s.length := by
  unfold skipScalar at h
  split at h
  · cases h
  · rw [List.length_cons]
    split at h
    · have := readWord_length h; omega
    · split at h
      · have := readWord_length h; omega
      · split at h
        · have := readWord_length h; omega
        · split at h
          · have := skipString_length h; omega
          · split at h
            · obtain ⟨t, ht, he⟩ := map_eq_ok h
              cases he; have := readNumeral_length ht; rw [List.length_cons] at this; exact this
            · cases h

/-! ## Containers -/

inductive Bracket where
  | list
  | record
deriving DecidableEq, Repr

namespace Bracket

def close : Bracket → UInt8
  | list => closeBracket
  | record => closeBrace

/-- The input ended inside the bracket. -/
def ends : Bracket → Reason
  | list => .listEnds
  | record => .objectEnds

def expected : Bracket → Reason
  | list => .expectedListCommaOrEnd
  | record => .expectedObjectCommaOrEnd

end Bracket

/-- Where a skip has got to: a value has to be passed over next; or one has been, inside the open
brackets; or a bracket has just been opened. -/
inductive SkipState where
  | wanting (brackets : List Bracket) (rest : Bytes)
  | passed (brackets : List Bracket) (rest : Bytes)
  | opened (bracket : Bracket) (outer : List Bracket) (rest : Bytes)

/-- Twice what is left, and one more before a bracket that has just been opened is looked into. -/
def SkipState.size : SkipState → Nat
  | .wanting _ r => 2 * r.length
  | .passed _ r => 2 * r.length
  | .opened _ _ r => 2 * r.length + 1

/-- In front of an item of the innermost bracket; in a record its key is passed over too. -/
def skipToItem (bracket : Bracket) (outer : List Bracket) (s : Bytes) : Except Fault SkipState :=
  match bracket with
  | .list => .ok (.wanting (.list :: outer) s)
  | .record =>
    match skipSpace s with
    | [] => .error ⟨.objectEnds, 0⟩
    | b :: r =>
      if b = quote then
        match skipString r with
        | .error f => .error f
        | .ok t => (readColon t).map (.wanting (.record :: outer) ·)
      else .error ⟨.keyNotString, r.length⟩

def skipOpening (brackets : List Bracket) (s : Bytes) : Except Fault SkipState :=
  match skipSpace s with
  | [] => .error ⟨.valueEnds, 0⟩
  | b :: r =>
    if b = openBracket then .ok (.opened .list brackets r)
    else if b = openBrace then .ok (.opened .record brackets r)
    else (skipScalar (b :: r)).map (.passed brackets ·)

def skipInside (bracket : Bracket) (outer : List Bracket) (s : Bytes) : Except Fault SkipState :=
  match skipSpace s with
  | [] => .error ⟨bracket.ends, 0⟩
  | b :: r => if b = bracket.close then .ok (.passed outer r) else skipToItem bracket outer (b :: r)

def skipAfter (bracket : Bracket) (outer : List Bracket) (s : Bytes) : Except Fault SkipState :=
  match skipSpace s with
  | [] => .error ⟨bracket.ends, 0⟩
  | b :: r =>
    if b = bracket.close then .ok (.passed outer r)
    else if b = comma then skipToItem bracket outer r
    else .error ⟨bracket.expected, r.length⟩

theorem skipToItem_size {bracket : Bracket} {outer : List Bracket} {s : Bytes} {st : SkipState}
    (h : skipToItem bracket outer s = .ok st) : st.size ≤ 2 * s.length := by
  unfold skipToItem at h
  split at h
  · cases h; exact Nat.le_refl _
  · split at h
    · cases h
    · next b r hs =>
      have := skipSpace_cons_length hs
      split at h
      · split at h
        · cases h
        · next ht =>
          obtain ⟨u, hu, he⟩ := map_eq_ok h
          have := skipString_length ht
          have := readColon_length hu
          cases he; simp only [SkipState.size]; omega
      · cases h

theorem skipOpening_size {brackets : List Bracket} {s : Bytes} {st : SkipState}
    (h : skipOpening brackets s = .ok st) : st.size < 2 * s.length := by
  unfold skipOpening at h
  split at h
  · cases h
  · next b r hs =>
    have := skipSpace_cons_length hs
    split at h
    · cases h; simp only [SkipState.size]; omega
    · split at h
      · cases h; simp only [SkipState.size]; omega
      · obtain ⟨t, ht, he⟩ := map_eq_ok h
        have := skipScalar_length ht
        rw [List.length_cons] at this
        cases he; simp only [SkipState.size]; omega

theorem skipInside_size {bracket : Bracket} {outer : List Bracket} {s : Bytes} {st : SkipState}
    (h : skipInside bracket outer s = .ok st) : st.size < 2 * s.length + 1 := by
  unfold skipInside at h
  split at h
  · cases h
  · next b r hs =>
    have := skipSpace_cons_length hs
    split at h
    · cases h; simp only [SkipState.size]; omega
    · have := skipToItem_size h
      rw [List.length_cons] at this; omega

theorem skipAfter_size {bracket : Bracket} {outer : List Bracket} {s : Bytes} {st : SkipState}
    (h : skipAfter bracket outer s = .ok st) : st.size < 2 * s.length := by
  unfold skipAfter at h
  split at h
  · cases h
  · next b r hs =>
    have := skipSpace_cons_length hs
    split at h
    · cases h; simp only [SkipState.size]; omega
    · split at h
      · have := skipToItem_size h; omega
      · cases h

/-- Goes on until every bracket is closed. -/
def skipRun (st : SkipState) : Except Fault Bytes :=
  match st with
  | .passed [] s => .ok s
  | .passed (bracket :: outer) s =>
    match _after : skipAfter bracket outer s with
    | .error f => .error f
    | .ok next => skipRun next
  | .opened bracket outer s =>
    match _inside : skipInside bracket outer s with
    | .error f => .error f
    | .ok next => skipRun next
  | .wanting brackets s =>
    match _opening : skipOpening brackets s with
    | .error f => .error f
    | .ok next => skipRun next
termination_by st.size
decreasing_by
  · exact skipAfter_size _after
  · exact skipInside_size _inside
  · exact skipOpening_size _opening

/-- What follows the value that comes next. -/
def skipValue (s : Bytes) : Except Fault Bytes := skipRun (.wanting [] s)

end ShapeLedger.Json
