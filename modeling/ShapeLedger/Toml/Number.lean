/-
Numbers, dates and times of settings documents.
-/
import ShapeLedger.Toml.Item
import ShapeLedger.Toml.Text

namespace ShapeLedger.Toml

/-! ## Digits -/

/-- More digits after those in `done`, newest first; an underscore may stand between two digits. -/
def moreDigits (isDigit : Char → Bool) (done : Chars) : Chars → Option (Chars × Chars)
  | [] => some (done.reverse, [])
  | ['_'] => none
  | '_' :: c :: r => if isDigit c then moreDigits isDigit (c :: done) r else none
  | c :: r =>
    if isDigit c then moreDigits isDigit (c :: done) r else some (done.reverse, c :: r)

/-- Digits, at least one. -/
def digits? (isDigit : Char → Bool) : Chars → Option (Chars × Chars)
  | [] => none
  | c :: r => if isDigit c then moreDigits isDigit [c] r else none

/-- The number that digits make in a base. -/
def number (base : Nat) (digits : Chars) : Nat :=
  digits.foldl (fun n c => n * base + (hexDigit? c).getD 0) 0

/-- An integer of 64 bits with a sign. -/
def integer? (n : Int) : Option Item :=
  if -twoPow 63 ≤ n && n < twoPow 63 then some (.integer n) else none

def isDigitOf (base : Nat) (c : Char) : Bool := (hexDigit? c).any (· < base)

/-! ## Numbers -/

/-- An integer in another base, from behind the letter that names it. -/
def based? (base : Nat) (s : Chars) : Option (Item × Chars) := do
  let (digits, r) ← digits? (isDigitOf base) s
  return (← integer? (number base digits), r)

def sign (s : Chars) : Bool × Chars :=
  match s with
  | '-' :: r => (true, r)
  | '+' :: r => (false, r)
  | _ => (false, s)

/-- The digits of a whole number: a leading zero stands alone. -/
def whole? : Chars → Option (Chars × Chars)
  | '0' :: r => some (['0'], r)
  | s => digits? Char.isDigit s

/-- The digits behind a point, if one comes next. -/
def fraction? : Chars → Option (Chars × Chars)
  | '.' :: r => digits? Char.isDigit r
  | s => some ([], s)

/-- The power of ten behind an `e`, if one comes next. -/
def exponent? : Chars → Option (Option Int × Chars)
  | c :: r =>
    if c = 'e' || c = 'E' then do
      let (negative, r) := sign r
      let (digits, t) ← digits? Char.isDigit r
      let n : Int := number 10 digits
      return (some (if negative then -n else n), t)
    else some (none, c :: r)
  | [] => some (none, [])

/-- A decimal number; one beyond the finite data is refused when it is positive. -/
def decimal? (s : Chars) : Option (Item × Chars) := do
  let (negative, r) := sign s
  let (whole, r) ← whole? r
  let (fraction, r) ← fraction? r
  let (exponent, r) ← exponent? r
  if fraction.isEmpty && exponent.isNone then
    let n : Int := number 10 whole
    return (← integer? (if negative then -n else n), r)
  else
    let x := Binary64.ofDecimal negative (number 10 (whole ++ fraction))
      (exponent.getD 0 - (fraction.length : Int))
    if x = Binary64.infinity false then none else return (.real x, r)

/-- Infinity and NaN, which may have a sign. -/
def special? (s : Chars) : Option (Item × Chars) :=
  let (negative, r) := sign s
  match r with
  | 'i' :: 'n' :: 'f' :: t => some (.real (.infinity negative), t)
  | 'n' :: 'a' :: 'n' :: t => some (.real .nan, t)
  | _ => none

def number? (s : Chars) : Option (Item × Chars) :=
  match s with
  | '0' :: 'x' :: r => based? 16 r
  | '0' :: 'o' :: r => based? 8 r
  | '0' :: 'b' :: r => based? 2 r
  | _ =>
    match special? s with
    | some x => some x
    | none => decimal? s

/-! ## Dates and times -/

/-- Exactly `n` digits. -/
def fixed? (n : Nat) (s : Chars) : Option (Nat × Chars) :=
  let digits := s.take n
  if digits.length = n && digits.all Char.isDigit then some (number 10 digits, s.drop n) else none

/-- Exactly `n` digits that make a number in a range. -/
def ranged? (n low high : Nat) (s : Chars) : Option (Nat × Chars) :=
  match fixed? n s with
  | some (k, r) => if low ≤ k && k ≤ high then some (k, r) else none
  | none => none

def expect? (c : Char) : Chars → Option Chars
  | d :: r => if d = c then some r else none
  | [] => none

def isLeap (year : Nat) : Bool := year % 4 = 0 && (year % 100 ≠ 0 || year % 400 = 0)

def daysIn (year month : Nat) : Nat :=
  if month = 2 then if isLeap year then 29 else 28
  else if month ∈ [4, 6, 9, 11] then 30
  else 31

/-- The rest of a date, from behind its year and hyphen. -/
def restOfDate? (year : Nat) (s : Chars) : Option Chars := do
  let (month, r) ← ranged? 2 1 12 s
  let (day, r) ← ranged? 2 1 31 (← expect? '-' r)
  if day ≤ daysIn year month then some r else none

/-- The rest of a time of day, from behind its hour and colon. -/
def restOfTime? (s : Chars) : Option Chars := do
  let (_, r) ← ranged? 2 0 59 s
  let (_, r) ← ranged? 2 0 60 (← expect? ':' r)
  match r with
  | '.' :: t => if t.takeWhile Char.isDigit = [] then some r else some (t.dropWhile Char.isDigit)
  | _ => some r

/-- An hour and a colon. -/
def hour? (s : Chars) : Option Chars :=
  match ranged? 2 0 23 s with
  | some (_, r) => expect? ':' r
  | none => none

/-- The distance from universal time, if one comes next. -/
def offset? : Chars → Option Chars
  | c :: r =>
    if c = 'Z' || c = 'z' then some r
    else if c = '+' || c = '-' then do
      let (_, t) ← ranged? 2 0 59 (← hour? r)
      return t
    else some (c :: r)
  | [] => some []

/-- The time that may follow a date. -/
def timeOfDate? : Chars → Option Chars
  | c :: r =>
    if c = 'T' || c = 't' || c = ' ' then
      match hour? r with
      | some t => restOfTime? t >>= offset?
      | none => some (c :: r)
    else some (c :: r)
  | [] => some []

/-- A date, a time, or both, when the digits that come next begin one: four and a hyphen, or those
of an hour and a colon. -/
def moment? (s : Chars) : Option (Option Chars) :=
  match fixed? 4 s with
  | some (year, '-' :: r) => some (restOfDate? year r >>= timeOfDate?)
  | _ =>
    match hour? s with
    | some r => some (restOfTime? r)
    | none => none

end ShapeLedger.Toml
