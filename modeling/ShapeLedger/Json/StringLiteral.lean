/-
String literals, from behind the opening quote. A reader collects bytes, escapes expanded, up to
the closing quote; the whole must then be UTF-8.
-/
import ShapeLedger.Json.Scan
import ShapeLedger.Text.Utf8

namespace ShapeLedger.Json

open Ascii

/-! ## Escapes -/

/-- The number that four hexadecimal digits make. -/
def hexNumber? (a b c d : UInt8) : Option Nat := do
  let a ← hexValue? a
  let b ← hexValue? b
  let c ← hexValue? c
  let d ← hexValue? d
  return ((a * 16 + b) * 16 + c) * 16 + d

def readHex : Bytes → Except Fault (Nat × Bytes)
  | a :: b :: c :: d :: r =>
    match hexNumber? a b c d with
    | some n => .ok (n, r)
    | none => .error ⟨.invalidEscape, r.length⟩
  | _ => .error ⟨.stringEnds, 0⟩

/-- The byte that a letter stands for behind a backslash. -/
def escaped? (b : UInt8) : Option UInt8 :=
  if b = quote || b = backslash || b = 0x2F then some b
  else if b = 0x62 then some 0x08
  else if b = 0x66 then some 0x0C
  else if b = 0x6E then some 0x0A
  else if b = 0x72 then some 0x0D
  else if b = 0x74 then some 0x09
  else none

def isLeadingSurrogate (n : Nat) : Bool := 0xD800 ≤ n && n ≤ 0xDBFF
def isTrailingSurrogate (n : Nat) : Bool := 0xDC00 ≤ n && n ≤ 0xDFFF

/-- The code point of a surrogate pair. -/
def surrogatePair (high low : Nat) : Nat := 0x10000 + (high - 0xD800) * 0x400 + (low - 0xDC00)

/-- The second half of a surrogate pair. -/
def readTrailing (high : Nat) : Bytes → Except Fault (Nat × Bytes)
  | [] => .error ⟨.stringEnds, 0⟩
  | b :: r =>
    if b ≠ backslash then .error ⟨.hexEscapeEnds, r.length⟩
    else
      match r with
      | [] => .error ⟨.stringEnds, 0⟩
      | c :: t =>
        if c ≠ lowerU then .error ⟨.hexEscapeEnds, t.length⟩
        else
          match readHex t with
          | .error f => .error f
          | .ok (low, u) =>
            if isTrailingSurrogate low then .ok (surrogatePair high low, u)
            else .error ⟨.loneSurrogate, u.length⟩

/-- The code point of an escape, from behind `\u`. -/
def readCodePoint (s : Bytes) : Except Fault (Nat × Bytes) :=
  match readHex s with
  | .error f => .error f
  | .ok (n, r) =>
    if isTrailingSurrogate n then .error ⟨.loneSurrogate, r.length⟩
    else if isLeadingSurrogate n then readTrailing n r
    else .ok (n, r)

/-- The bytes that an escape stands for, from behind the backslash. -/
def readEscape : Bytes → Except Fault (Bytes × Bytes)
  | [] => .error ⟨.stringEnds, 0⟩
  | b :: r =>
    if b = lowerU then
      match readCodePoint r with
      | .error f => .error f
      | .ok (n, t) => .ok (Utf8.encodeCodePoint n, t)
    else
      match escaped? b with
      | some c => .ok ([c], r)
      | none => .error ⟨.invalidEscape, r.length⟩

theorem readHex_length {s r : Bytes} {n : Nat} (h : readHex s = .ok (n, r)) :
    r.length < s.length := by
  unfold readHex at h
  split at h
  · split at h <;> cases h
    simp only [List.length_cons]; omega
  · cases h

theorem readTrailing_length {high : Nat} {s r : Bytes} {n : Nat}
    (h : readTrailing high s = .ok (n, r)) : r.length < s.length := by
  unfold readTrailing at h
  split at h
  · cases h
  · split at h
    · cases h
    · split at h
      · cases h
      · split at h
        · cases h
        · split at h
          · cases h
          · next hx =>
            have := readHex_length hx
            split at h
            · simp only [Except.ok.injEq, Prod.mk.injEq] at h
              obtain ⟨-, rfl⟩ := h
              simp only [List.length_cons]; omega
            · cases h

theorem readCodePoint_length {s r : Bytes} {n : Nat} (h : readCodePoint s = .ok (n, r)) :
    r.length < s.length := by
  unfold readCodePoint at h
  split at h
  · cases h
  · next hx =>
    have := readHex_length hx
    split at h
    · cases h
    · split at h
      · have := readTrailing_length h; omega
      · cases h; exact this

theorem readEscape_length {s r bs : Bytes} (h : readEscape s = .ok (bs, r)) :
    r.length < s.length := by
  unfold readEscape at h
  split at h
  · cases h
  · split at h
    · split at h
      · cases h
      · next hc =>
        have := readCodePoint_length hc
        cases h
        simp only [List.length_cons]; omega
    · split at h <;> cases h
      simp

/-! ## Literals -/

/-- The bytes of a literal, put in front of `done` newest first, and what follows its quote. -/
def readLiteral (done : Bytes) (s : Bytes) : Except Fault (Bytes × Bytes) :=
  match s with
  | [] => .error ⟨.stringEnds, 0⟩
  | b :: r =>
    if b = quote then .ok (done.reverse, r)
    else if b = backslash then
      match _read : readEscape r with
      | .error f => .error f
      | .ok (bs, t) => readLiteral (bs.reverse ++ done) t
    else if b < space then .error ⟨.controlCharacter, r.length⟩
    else readLiteral (b :: done) r
termination_by s.length
decreasing_by
  · have := readEscape_length _read
    simp only [List.length_cons]; omega
  · simp

/-- The text of a literal. Bytes that are no UTF-8 are reported as many bytes before the end of the
literal as decoded bytes follow the well-formed part. -/
def readString (s : Bytes) : Except Fault (String × Bytes) :=
  match readLiteral [] s with
  | .error f => .error f
  | .ok (bytes, r) =>
    match Utf8.decodePrefix bytes with
    | (cs, []) => .ok (String.ofList cs, r)
    | (_, bad@(_ :: _)) => .error ⟨.invalidCodePoint, r.length + bad.length⟩

theorem readLiteral_length {done s bs r : Bytes} (h : readLiteral done s = .ok (bs, r)) :
    r.length < s.length := by
  fun_induction readLiteral done s with
  | case1 => cases h
  | case2 => cases h; simp
  | case3 => cases h
  | case4 done r bs t ht _ ih =>
    have := readEscape_length ht
    have := ih h
    simp only [List.length_cons]; omega
  | case5 => cases h
  | case6 done b r _ _ _ ih =>
    have := ih h
    simp only [List.length_cons]; omega

theorem readString_length {s r : Bytes} {t : String} (h : readString s = .ok (t, r)) :
    r.length < s.length := by
  unfold readString at h
  split at h
  · cases h
  · next hl =>
    split at h <;> cases h
    exact readLiteral_length hl

end ShapeLedger.Json
