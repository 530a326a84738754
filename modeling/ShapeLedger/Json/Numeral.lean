/-
Number literals: first their digits, by the grammar alone, then the number they denote.

The significand takes digits while it stays below 2^64; whole digits past that raise the power of
ten, fraction digits past that are dropped. The power of ten is applied in binary64, with one
rounding for each factor of at most 10^308.
-/
import ShapeLedger.Json.Scan
import ShapeLedger.Json.Value

namespace ShapeLedger.Json

open Ascii

structure Exponent where
  negative : Bool
  digits : Bytes
deriving DecidableEq, Repr

/-- The digits of a literal; `fraction` is empty when there is no point. -/
structure Numeral where
  negative : Bool
  whole : Bytes
  fraction : Bytes
  exponent : Option Exponent
deriving DecidableEq, Repr

/-! ## Grammar -/

/-- A run of digits that must not be empty. -/
def readDigits (atEnd : Reason) : Bytes → Except Fault (Bytes × Bytes)
  | [] => .error ⟨atEnd, 0⟩
  | b :: r =>
    if isDigit b then .ok (b :: r.takeWhile isDigit, r.dropWhile isDigit)
    else .error ⟨.invalidNumber, r.length⟩

/-- The digits before the point: a leading zero stands alone. -/
def readWhole (atEnd : Reason) : Bytes → Except Fault (Bytes × Bytes)
  | [] => .error ⟨atEnd, 0⟩
  | b :: r =>
    if b = zero then
      match r with
      | [] => .ok ([b], [])
      | c :: t => if isDigit c then .error ⟨.invalidNumber, t.length⟩ else .ok ([b], c :: t)
    else readDigits atEnd (b :: r)

def readFraction (atEnd : Reason) : Bytes → Except Fault (Bytes × Bytes)
  | [] => .ok ([], [])
  | b :: r => if b = point then readDigits atEnd r else .ok ([], b :: r)

/-- A sign in front of exponent digits, if there is one. -/
def readSign : Bytes → Bool × Bytes
  | [] => (false, [])
  | b :: r => if b = minus then (true, r) else if b = plus then (false, r) else (false, b :: r)

def readExponent (atEnd : Reason) : Bytes → Except Fault (Option Exponent × Bytes)
  | [] => .ok (none, [])
  | b :: r =>
    if b = lowerE || b = upperE then
      match readDigits atEnd (readSign r).2 with
      | .error f => .error f
      | .ok (digits, t) => .ok (some ⟨(readSign r).1, digits⟩, t)
    else .ok (none, b :: r)

/-- The minus sign of a literal, if it has one. -/
def readMinus : Bytes → Bool × Bytes
  | [] => (false, [])
  | b :: r => if b = minus then (true, r) else (false, b :: r)

/-- A literal from its sign or first digit on; `atEnd` is reported when the input ends inside it. -/
def readNumeral (atEnd : Reason) (s : Bytes) : Except Fault (Numeral × Bytes) := do
  let (whole, afterWhole) ← readWhole atEnd (readMinus s).2
  let (fraction, afterFraction) ← readFraction atEnd afterWhole
  let (exponent, rest) ← readExponent atEnd afterFraction
  return (⟨(readMinus s).1, whole, fraction, exponent⟩, rest)

/-! ## Value -/

/-- Takes digits into the significand while it stays below 2^64; with the count of those left. -/
def absorb (m : Nat) : Bytes → Nat × Nat
  | [] => (m, 0)
  | d :: r =>
    if m * 10 + digitValue d < twoPow 64 then absorb (m * 10 + digitValue d) r
    else (m, r.length + 1)

/-- The number that exponent digits make or, when it passes the greatest 32-bit integer, how many
digits follow the one that passes it. -/
def exponentMagnitude (k : Nat) : Bytes → Except Nat Nat
  | [] => .ok k
  | d :: r =>
    if k * 10 + digitValue d < twoPow 31 then exponentMagnitude (k * 10 + digitValue d) r
    else .error r.length

/-- Divides by `10 ^ k`, in steps of `10 ^ 308`. -/
def scaleDown (x : Binary64) (k : Nat) : Binary64 :=
  if k ≤ 308 then x.div (Binary64.ofDecimal false 1 k)
  else if x.isZero then x
  else scaleDown (x.div (Binary64.ofDecimal false 1 308)) (k - 308)
termination_by k
decreasing_by omega

/-- The magnitude of `m · 10 ^ e`, when it is finite. -/
def scale? (m : Nat) (e : Int) : Option Binary64 :=
  if e < 0 then some (scaleDown (Binary64.ofNat m) e.natAbs)
  else if m = 0 then some (Binary64.zero false)
  else if 308 < e then none
  else
    let x := (Binary64.ofNat m).mul (Binary64.ofDecimal false 1 e)
    if x.isInfinite then none else some x

namespace Numeral

/-- The significand and its power of ten, the exponent part aside. -/
def significand (n : Numeral) : Nat × Int :=
  let (m, raised) := absorb 0 n.whole
  let (m, dropped) := absorb m n.fraction
  (m, (raised : Int) - ((n.fraction.length - dropped : Nat) : Int))

/-- The integer of a literal that has digits and a sign only. -/
def integer? (n : Numeral) : Option Int :=
  if n.fraction.isEmpty && n.exponent.isNone then
    match absorb 0 n.whole with
    | (m, 0) =>
      if !n.negative then some m
      else if 0 < m && m ≤ twoPow 63 then some (-(m : Int))
      else none
    | (_, _ + 1) => none
  else none

def signed (n : Numeral) (x : Binary64) : Number := .real (if n.negative then x.neg else x)

/-- The number denoted; or, for one beyond the finite data, how many bytes of the literal follow
the place where that shows. -/
def value (n : Numeral) : Except Nat Number :=
  match n.integer? with
  | some k => .ok (.integer k)
  | none =>
    let (m, e) := n.significand
    match n.exponent with
    | none =>
      match scale? m e with
      | some x => .ok (n.signed x)
      | none => .error 0
    | some p =>
      match exponentMagnitude 0 p.digits with
      | .error after =>
        if m = 0 || p.negative then .ok (n.signed (Binary64.zero false)) else .error after
      | .ok k =>
        match scale? m (if p.negative then e - k else e + k) with
        | some x => .ok (n.signed x)
        | none => .error 0

end Numeral

def readNumber (s : Bytes) : Except Fault (Number × Bytes) :=
  match readNumeral .valueEnds s with
  | .error f => .error f
  | .ok (n, r) =>
    match n.value with
    | .ok v => .ok (v, r)
    | .error after => .error ⟨.numberOutOfRange, after + r.length⟩

/-! ## Lengths -/

theorem readDigits_length {e : Reason} {s ds r : Bytes} (h : readDigits e s = .ok (ds, r)) :
    r.length < s.length := by
  unfold readDigits at h
  split at h
  · cases h
  · next b t =>
    have := (List.dropWhile_suffix (l := t) isDigit).length_le
    split at h <;> cases h
    rw [List.length_cons]; omega

theorem readWhole_length {e : Reason} {s ds r : Bytes} (h : readWhole e s = .ok (ds, r)) :
    r.length < s.length := by
  unfold readWhole at h
  split at h
  · cases h
  · split at h
    · split at h
      · cases h; simp
      · split at h <;> cases h; simp
    · exact readDigits_length h

theorem readFraction_length {e : Reason} {s ds r : Bytes} (h : readFraction e s = .ok (ds, r)) :
    r.length ≤ s.length := by
  unfold readFraction at h
  split at h
  · cases h; simp
  · split at h
    · have := readDigits_length h; rw [List.length_cons]; omega
    · cases h; simp

theorem readSign_length_le (s : Bytes) : (readSign s).2.length ≤ s.length := by
  unfold readSign
  split
  · simp
  · split
    · simp
    · split <;> simp

theorem readMinus_length_le (s : Bytes) : (readMinus s).2.length ≤ s.length := by
  unfold readMinus
  split
  · simp
  · split <;> simp

theorem readExponent_length {e : Reason} {s r : Bytes} {x : Option Exponent}
    (h : readExponent e s = .ok (x, r)) : r.length ≤ s.length := by
  unfold readExponent at h
  split at h
  · cases h; simp
  · next b t =>
    have := readSign_length_le t
    split at h
    · split at h
      · cases h
      · next hd => have := readDigits_length hd; cases h; rw [List.length_cons]; omega
    · cases h; simp

theorem readNumeral_length {e : Reason} {s r : Bytes} {n : Numeral}
    (h : readNumeral e s = .ok (n, r)) : r.length < s.length := by
  simp only [readNumeral, bind, Except.bind] at h
  split at h
  · cases h
  · next hw =>
    split at h
    · cases h
    · next hf =>
      split at h
      · cases h
      · next he =>
        cases h
        have := readWhole_length hw
        have := readFraction_length hf
        have := readExponent_length he
        have := readMinus_length_le s
        omega

theorem readNumber_length {s r : Bytes} {v : Number} (h : readNumber s = .ok (v, r)) :
    r.length < s.length := by
  unfold readNumber at h
  split at h
  · cases h
  · next hn =>
    split at h <;> cases h
    exact readNumeral_length hn

end ShapeLedger.Json
