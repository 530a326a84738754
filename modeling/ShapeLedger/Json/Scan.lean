/-
The smallest readers: blanks, fixed words, and the punctuation between elements and members.
Each takes what is left of the input and gives back less of it.
-/
import ShapeLedger.Json.Error

namespace ShapeLedger.Json

open Ascii

/-- The four bytes that may stand between tokens. -/
def isSpace (b : UInt8) : Bool :=
  b = space || b = tab || b = lineFeed || b = carriageReturn

def skipSpace (s : Bytes) : Bytes := s.dropWhile isSpace

theorem skipSpace_length_le (s : Bytes) : (skipSpace s).length ≤ s.length :=
  (List.dropWhile_suffix isSpace).length_le

/-- The rest of a word whose first letter has been read. -/
def readWord : Bytes → Bytes → Except Fault Bytes
  | [], s => .ok s
  | _ :: _, [] => .error ⟨.valueEnds, 0⟩
  | w :: ws, b :: s => if b = w then readWord ws s else .error ⟨.expectedIdent, s.length⟩

theorem readWord_length {w s r : Bytes} (h : readWord w s = .ok r) : r.length ≤ s.length := by
  fun_induction readWord w s with
  | case1 s => cases h; exact Nat.le_refl _
  | case2 => cases h
  | case3 w ws s ih => exact Nat.le_succ_of_le (ih h)
  | case4 => cases h

/-! ## Punctuation -/

/-- What comes next inside a bracket: another item, starting here, or what follows the bracket. -/
inductive Turn where
  | item (rest : Bytes)
  | done (rest : Bytes)
deriving DecidableEq, Repr

/-- After `[`. -/
def firstElement (s : Bytes) : Except Fault Turn :=
  match skipSpace s with
  | [] => .error ⟨.listEnds, 0⟩
  | b :: r => if b = closeBracket then .ok (.done r) else .ok (.item (b :: r))

/-- After an element. -/
def nextElement (s : Bytes) : Except Fault Turn :=
  match skipSpace s with
  | [] => .error ⟨.listEnds, 0⟩
  | b :: r =>
    if b = closeBracket then .ok (.done r)
    else if b = comma then
      match skipSpace r with
      | [] => .error ⟨.valueEnds, 0⟩
      | c :: t =>
        if c = closeBracket then .error ⟨.trailingComma, t.length⟩ else .ok (.item (c :: t))
    else .error ⟨.expectedListCommaOrEnd, r.length⟩

/-- After `{`: an item starts behind the quote of its key. -/
def firstMember (s : Bytes) : Except Fault Turn :=
  match skipSpace s with
  | [] => .error ⟨.objectEnds, 0⟩
  | b :: r =>
    if b = closeBrace then .ok (.done r)
    else if b = quote then .ok (.item r)
    else .error ⟨.keyNotString, r.length⟩

/-- After a member's value: the next item starts behind the quote of its key. -/
def nextMember (s : Bytes) : Except Fault Turn :=
  match skipSpace s with
  | [] => .error ⟨.objectEnds, 0⟩
  | b :: r =>
    if b = closeBrace then .ok (.done r)
    else if b = comma then
      match skipSpace r with
      | [] => .error ⟨.valueEnds, 0⟩
      | c :: t =>
        if c = quote then .ok (.item t)
        else if c = closeBrace then .error ⟨.trailingComma, t.length⟩
        else .error ⟨.keyNotString, t.length⟩
    else .error ⟨.expectedObjectCommaOrEnd, r.length⟩

/-- The colon after a key. -/
def readColon (s : Bytes) : Except Fault Bytes :=
  match skipSpace s with
  | [] => .error ⟨.objectEnds, 0⟩
  | b :: r => if b = colon then .ok r else .error ⟨.expectedColon, r.length⟩

/-- Nothing but blanks may follow the document. -/
def readEnd (s : Bytes) : Except Fault Unit :=
  match skipSpace s with
  | [] => .ok ()
  | _ :: r => .error ⟨.trailingCharacters, r.length⟩

def Turn.rest : Turn → Bytes
  | .item r | .done r => r

theorem skipSpace_cons_length {s : Bytes} {b : UInt8} {r : Bytes} (h : skipSpace s = b :: r) :
    r.length < s.length := by
  have := skipSpace_length_le s
  rw [h, List.length_cons] at this
  omega

theorem firstElement_length {s : Bytes} {t : Turn} (h : firstElement s = .ok t) :
    t.rest.length ≤ s.length := by
  unfold firstElement at h
  split at h
  · cases h
  · next b r hs =>
    have := skipSpace_cons_length hs
    split at h <;> cases h <;> simp only [Turn.rest, List.length_cons] <;> omega

theorem nextElement_length {s : Bytes} {t : Turn} (h : nextElement s = .ok t) :
    t.rest.length < s.length := by
  unfold nextElement at h
  split at h
  · cases h
  · next b r hs =>
    have := skipSpace_cons_length hs
    split at h
    · cases h; exact this
    · split at h
      · split at h
        · cases h
        · next c u hr =>
          have := skipSpace_cons_length hr
          split at h <;> cases h
          simp only [Turn.rest, List.length_cons]; omega
      · cases h

theorem firstMember_length {s : Bytes} {t : Turn} (h : firstMember s = .ok t) :
    t.rest.length < s.length := by
  unfold firstMember at h
  split at h
  · cases h
  · next b r hs =>
    have := skipSpace_cons_length hs
    split at h
    · cases h; exact this
    · split at h <;> cases h; exact this

theorem nextMember_length {s : Bytes} {t : Turn} (h : nextMember s = .ok t) :
    t.rest.length < s.length := by
  unfold nextMember at h
  split at h
  · cases h
  · next b r hs =>
    have := skipSpace_cons_length hs
    split at h
    · cases h; exact this
    · split at h
      · split at h
        · cases h
        · next c u hr =>
          have := skipSpace_cons_length hr
          split at h
          · cases h; simp only [Turn.rest]; omega
          · split at h <;> cases h
      · cases h

theorem readColon_length {s r : Bytes} (h : readColon s = .ok r) : r.length < s.length := by
  unfold readColon at h
  split at h
  · cases h
  · next b r' hs =>
    have := skipSpace_cons_length hs
    split at h <;> cases h; exact this

end ShapeLedger.Json
