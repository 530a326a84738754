/-
The grammar of JSON texts, and what each text denotes. It is stated as relations between bytes and
what they mean, and says nothing of how a text is read. `Text` is the whole of it: one value with
blanks around it and nothing else, at any depth.

Characters are written in UTF-8 or escaped, the escapes of a surrogate pair together. An integer
literal within 64 bits denotes that integer; any other literal denotes the binary64 datum that its
digits are converted to, and is no number if that is not finite. An object denotes its members with
the repetitions of each key merged into one.
-/
import ShapeLedger.Json.Numeral
import ShapeLedger.Text.Utf8

namespace ShapeLedger.Json.Grammar

open Ascii

/-- The bytes that may stand between tokens. -/
def Blank (w : Bytes) : Prop := ∀ b ∈ w, b = space ∨ b = tab ∨ b = lineFeed ∨ b = carriageReturn

/-! ## Numbers -/

/-- One decimal digit or more. -/
def Digits (s : Bytes) : Prop := s ≠ [] ∧ ∀ b ∈ s, isDigit b = true

/-- Digits before the point: a leading zero stands alone. -/
inductive Whole : Bytes → Prop where
  | zero : Whole [zero]
  | digits {s : Bytes} (digits : Digits s) (first : s.head? ≠ some zero) : Whole s

/-- The text of a fraction, and its digits. -/
inductive Fraction : Bytes → Bytes → Prop where
  | absent : Fraction [] []
  | present {s : Bytes} (digits : Digits s) : Fraction (point :: s) s

/-- The sign of an exponent; a plus sign may be left out. -/
inductive Sign : Bytes → Bool → Prop where
  | none : Sign [] false
  | plus : Sign [plus] false
  | minus : Sign [minus] true

/-- The text of an exponent, which may be left out, with its sign and digits. -/
inductive ExponentPart : Bytes → Option Exponent → Prop where
  | absent : ExponentPart [] none
  | present {e : UInt8} {sign digits : Bytes} {negative : Bool} (letter : e = lowerE ∨ e = upperE)
      (hs : Sign sign negative) (hd : Digits digits) :
      ExponentPart (e :: (sign ++ digits)) (some ⟨negative, digits⟩)

/-- A number literal and the digits in it. -/
inductive Literal : Bytes → Numeral → Prop where
  | mk {negative : Bool} {whole fractionText fraction exponentText : Bytes} {exponent : Option Exponent}
      (hw : Whole whole) (hf : Fraction fractionText fraction) (he : ExponentPart exponentText exponent) :
      Literal ((if negative then [minus] else []) ++ (whole ++ (fractionText ++ exponentText)))
        ⟨negative, whole, fraction, exponent⟩

/-- The natural number that decimal digits make. -/
def decimal (digits : Bytes) : Nat := digits.foldl (fun n d => n * 10 + digitValue d) 0

/-- The digits before the point as an integer. -/
def signedWhole (n : Numeral) : Int := if n.negative then -(decimal n.whole : Int) else decimal n.whole

/-- A sign and digits alone that make an integer in `[-2^63, 2^64)`; minus zero is none. -/
structure IsInteger (n : Numeral) : Prop where
  fraction : n.fraction = []
  exponent : n.exponent = none
  low : -(twoPow 63 : Int) ≤ signedWhole n
  high : signedWhole n < twoPow 64
  notMinusZero : n.negative = true → decimal n.whole ≠ 0

/-- The datum that the digits of a literal are converted to, unless it passes the finite ones. -/
def toBinary64? (n : Numeral) : Option Binary64 :=
  let (m, e) := n.significand
  let magnitude? : Option Binary64 :=
    match n.exponent with
    | none => scale? m e
    | some p =>
      match exponentMagnitude 0 p.digits with
      | .ok k => scale? m (if p.negative then e - k else e + k)
      | .error _ => if m = 0 || p.negative then some (Binary64.zero false) else none
  magnitude?.map (fun x => if n.negative then x.neg else x)

/-- The number that a literal denotes: an integer in the range of 64 bits, or the nearest of the finite floats. -/
inductive NumberDenotes (n : Numeral) : Number → Prop where
  | integer (h : IsInteger n) : NumberDenotes n (.integer (signedWhole n))
  | real {x : Binary64} (h : ¬ IsInteger n) (converted : toBinary64? n = some x)
      (finite : x.isFinite = true) : NumberDenotes n (.real x)

/-! ## Strings -/

/-- Four hexadecimal digits and their number. -/
inductive Hex : Bytes → Nat → Prop where
  | mk {a b c d : UInt8} {i j k l : Nat} (ha : hexValue? a = some i) (hb : hexValue? b = some j)
      (hc : hexValue? c = some k) (hd : hexValue? d = some l) :
      Hex [a, b, c, d] (((i * 16 + j) * 16 + k) * 16 + l)

/-- The letters that may stand behind a backslash, with the characters that they stand for. -/
def letters : List (UInt8 × Char) :=
  [(quote, '"'), (backslash, '\\'), (0x2F, '/'), (0x62, '\x08'), (0x66, '\x0C'), (0x6E, '\n'),
    (0x72, '\r'), (0x74, '\t')]

/-- What may stand behind a backslash, and the character that it stands for. A character is never a
surrogate, so a single `\u` escape is none either. -/
inductive Escape : Bytes → Char → Prop where
  | letter {b : UInt8} {c : Char} (h : (b, c) ∈ letters) : Escape [b] c
  | codePoint {s : Bytes} {c : Char} (h : Hex s c.toNat) : Escape (lowerU :: s) c
  | pair {s t : Bytes} {high low : Nat} {c : Char} (hs : Hex s high) (ht : Hex t low)
      (leading : 0xD800 ≤ high ∧ high ≤ 0xDBFF) (trailing : 0xDC00 ≤ low ∧ low ≤ 0xDFFF)
      (hc : c.toNat = 0x10000 + (high - 0xD800) * 0x400 + (low - 0xDC00)) :
      Escape (lowerU :: (s ++ backslash :: lowerU :: t)) c

/-- One character of a string, as it is written between the quotes. -/
inductive Character : Bytes → Char → Prop where
  | plain {c : Char} (quote : c ≠ '"') (backslash : c ≠ '\\') (control : ' ' ≤ c) :
      Character (Utf8.encodeCodePoint c.toNat) c
  | escape {s : Bytes} {c : Char} (h : Escape s c) : Character (backslash :: s) c

/-- Characters one after the other, as they are written. -/
inductive Characters : Bytes → List Char → Prop where
  | nil : Characters [] []
  | cons {s t : Bytes} {c : Char} {cs : List Char} (head : Character s c) (tail : Characters t cs) :
      Characters (s ++ t) (c :: cs)

/-- A string literal and the text that it denotes. -/
inductive Quoted : Bytes → String → Prop where
  | mk {body : Bytes} {t : String} (h : Characters body t.toList) : Quoted (quote :: (body ++ [quote])) t

/-! ## Members -/

/-- The value of the last member with this key, of those that are written. -/
def last? (key : String) (written : Members) : Option Value := Members.get? key written.reverse

/-- The members that an object denotes: each key once, in the order in which the keys first occur,
with the value of its last occurrence. -/
def merged (written : Members) : Members :=
  (written.map (·.1)).eraseDups.filterMap (fun key => (last? key written).map (key, ·))

/-! ## Values -/

/-- What a piece of a text may denote. -/
inductive Meaning where
  | value (v : Value)
  /-- A value with blanks around it. -/
  | element (v : Value)
  /-- Elements between commas, at least one. -/
  | elements (vs : List Value)
  | member (key : String) (v : Value)
  /-- Members between commas, at least one. -/
  | members (ms : Members)
  /-- An object, with its members as they are written. -/
  | record (ms : Members)

/-- A piece of a text is written by the grammar, and denotes this. -/
inductive Denotes : Bytes → Meaning → Prop where
  | null : Denotes [0x6E, 0x75, 0x6C, 0x6C] (.value .null)
  | true : Denotes [0x74, 0x72, 0x75, 0x65] (.value (.boolean true))
  | false : Denotes [0x66, 0x61, 0x6C, 0x73, 0x65] (.value (.boolean false))
  | number {s : Bytes} {n : Numeral} {x : Number} (hs : Literal s n) (hx : NumberDenotes n x) :
      Denotes s (.value (.number x))
  | text {s : Bytes} {t : String} (hs : Quoted s t) : Denotes s (.value (.text t))
  | emptyArray {w : Bytes} (hw : Blank w) :
      Denotes (openBracket :: (w ++ [closeBracket])) (.value (.array []))
  | array {s : Bytes} {vs : List Value} (hs : Denotes s (.elements vs)) :
      Denotes (openBracket :: (s ++ [closeBracket])) (.value (.array vs))
  | object {s : Bytes} {ms : Members} (hs : Denotes s (.record ms)) :
      Denotes s (.value (.object (merged ms)))
  | element {w s w' : Bytes} {v : Value} (hw : Blank w) (hs : Denotes s (.value v)) (hw' : Blank w') :
      Denotes (w ++ (s ++ w')) (.element v)
  | lastElement {s : Bytes} {v : Value} (hs : Denotes s (.element v)) : Denotes s (.elements [v])
  | nextElement {s t : Bytes} {v : Value} {vs : List Value} (hs : Denotes s (.element v))
      (ht : Denotes t (.elements vs)) : Denotes (s ++ comma :: t) (.elements (v :: vs))
  | member {w k w' s : Bytes} {key : String} {v : Value} (hw : Blank w) (hk : Quoted k key)
      (hw' : Blank w') (hs : Denotes s (.element v)) :
      Denotes (w ++ (k ++ (w' ++ colon :: s))) (.member key v)
  | lastMember {s : Bytes} {key : String} {v : Value} (hs : Denotes s (.member key v)) :
      Denotes s (.members [(key, v)])
  | nextMember {s t : Bytes} {key : String} {v : Value} {ms : Members} (hs : Denotes s (.member key v))
      (ht : Denotes t (.members ms)) : Denotes (s ++ comma :: t) (.members ((key, v) :: ms))
  | emptyRecord {w : Bytes} (hw : Blank w) : Denotes (openBrace :: (w ++ [closeBrace])) (.record [])
  | record {s : Bytes} {ms : Members} (hs : Denotes s (.members ms)) :
      Denotes (openBrace :: (s ++ [closeBrace])) (.record ms)

/-- A whole text that denotes a value. -/
def Text (s : Bytes) (v : Value) : Prop := Denotes s (.element v)

/-- A whole text that is an object, with its members as they are written. -/
def RecordText (s : Bytes) (ms : Members) : Prop :=
  ∃ w t w', s = w ++ (t ++ w') ∧ Blank w ∧ Denotes t (.record ms) ∧ Blank w'

theorem RecordText.text {s : Bytes} {ms : Members} (h : RecordText s ms) :
    Text s (.object (merged ms)) := by
  obtain ⟨w, t, w', rfl, hw, ht, hw'⟩ := h
  exact .element hw (.object ht) hw'

/-- A text that denotes an object is written with members. -/
theorem Text.record {s : Bytes} {members : Members} (h : Text s (.object members)) :
    ∃ ms, RecordText s ms ∧ members = merged ms := by
  cases h with
  | element hw hs hw' =>
    cases hs with
    | object hs => exact ⟨_, ⟨_, _, _, rfl, hw, hs, hw'⟩, rfl⟩

end ShapeLedger.Json.Grammar
