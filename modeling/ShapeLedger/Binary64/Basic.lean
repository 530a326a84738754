/-
IEEE 754 binary64 data as bits, and rounding to them by exact arithmetic on naturals: every
operation forms the exact ratio first and rounds it once, to nearest with ties to even. Where a
power stands on one side of a ratio, the negative part of its exponent moves to the other side.
-/
import ShapeLedger.Power

namespace ShapeLedger

/-- A binary64 datum, held as its 64 bits. -/
structure Binary64 where
  bits : UInt64
deriving DecidableEq, Repr, Inhabited

namespace Binary64

/-! ## Fields -/

/-- The sign bit. -/
def negative (x : Binary64) : Bool := twoPow 63 ≤ x.bits.toNat

/-- The bits below the sign: the order of magnitudes is the order of these numbers. -/
def magnitude (x : Binary64) : Nat := x.bits.toNat % twoPow 63

/-- The magnitude of the infinities; NaN lies above it, every finite value below. -/
def infiniteMagnitude : Nat := 2047 * twoPow 52

def ofMagnitude (negative : Bool) (magnitude : Nat) : Binary64 :=
  ⟨UInt64.ofNat ((if negative then twoPow 63 else 0) + magnitude)⟩

def isNaN (x : Binary64) : Bool := infiniteMagnitude < x.magnitude
def isInfinite (x : Binary64) : Bool := x.magnitude = infiniteMagnitude
def isFinite (x : Binary64) : Bool := x.magnitude < infiniteMagnitude
def isZero (x : Binary64) : Bool := x.magnitude = 0

def zero (negative : Bool) : Binary64 := ofMagnitude negative 0
def infinity (negative : Bool) : Binary64 := ofMagnitude negative infiniteMagnitude
def nan : Binary64 := ofMagnitude false (infiniteMagnitude + twoPow 51)

/-- The same datum with the other sign. -/
def neg (x : Binary64) : Binary64 := ofMagnitude (!x.negative) x.magnitude

/-- A finite magnitude is `significand · 2 ^ unit`. -/
def significand (x : Binary64) : Nat :=
  let exponent := x.magnitude / twoPow 52
  let fraction := x.magnitude % twoPow 52
  if exponent = 0 then fraction else twoPow 52 + fraction

/-- The exponent of the last place of a finite magnitude. -/
def unit (x : Binary64) : Int :=
  let exponent : Nat := x.magnitude / twoPow 52
  if exponent = 0 then -1074 else Int.ofNat exponent - 1075

/-! ## Rounding -/

/-- `num / den` rounded to a natural, a half going to the even neighbour. -/
def roundHalfEven (num den : Nat) : Nat :=
  let q := num / den
  let twice := 2 * (num % den)
  if twice < den then q
  else if den < twice then q + 1
  else if q % 2 = 0 then q else q + 1

/-- The greatest `e` with `2 ^ e ≤ num / den`, both being positive. -/
def floorLog2 (num den : Nat) : Int :=
  let e : Int := (num.log2 : Int) - (den.log2 : Int)
  if den * twoPow e.toNat ≤ num * twoPow (-e).toNat then e else e - 1

/-- The datum nearest to `± num / den`. The last place is that of the value's binade, or the
subnormal one; a carry out of the significand moves into the exponent field by itself, and what
reaches the infinite magnitude stays there. -/
def round (negative : Bool) (num den : Nat) : Binary64 :=
  if num = 0 then zero negative
  else
    let unit := max (floorLog2 num den) (-1022) - 52
    let m := roundHalfEven (num * twoPow (-unit).toNat) (den * twoPow unit.toNat)
    ofMagnitude negative (min ((unit + 1074).toNat * twoPow 52 + m) infiniteMagnitude)

/-- The datum nearest to `± m · 2 ^ e / den`. -/
def roundScaled (negative : Bool) (m : Nat) (e : Int) (den : Nat) : Binary64 :=
  round negative (m * twoPow e.toNat) (den * twoPow (-e).toNat)

def ofNat (n : Nat) : Binary64 := round false n 1

def ofInt (n : Int) : Binary64 := round (n < 0) n.natAbs 1

/-! ## Arithmetic -/

def mul (x y : Binary64) : Binary64 :=
  let sign := x.negative != y.negative
  if x.isNaN || y.isNaN then nan
  else if x.isInfinite || y.isInfinite then
    if x.isZero || y.isZero then nan else infinity sign
  else roundScaled sign (x.significand * y.significand) (x.unit + y.unit) 1

def div (x y : Binary64) : Binary64 :=
  let sign := x.negative != y.negative
  if x.isNaN || y.isNaN then nan
  else if x.isInfinite then if y.isInfinite then nan else infinity sign
  else if y.isInfinite then zero sign
  else if y.isZero then if x.isZero then nan else infinity sign
  else roundScaled sign x.significand (x.unit - y.unit) y.significand

/-! ## Decimals -/

/-- The count of decimal digits of `n`, at least one. -/
def decimalLength (n : Nat) : Nat :=
  if h : n < 10 then 1 else decimalLength (n / 10) + 1
termination_by n
decreasing_by omega

/-- The datum nearest to `± digits · 10 ^ exponent`. Decimals far outside the range are settled by
their size, before a power of ten is formed. -/
def ofDecimal (negative : Bool) (digits : Nat) (exponent : Int) : Binary64 :=
  if digits = 0 then zero negative
  else
    let size : Int := decimalLength digits + exponent
    if 310 < size then infinity negative
    else if size < -330 then zero negative
    else round negative (digits * tenPow exponent.toNat) (tenPow (-exponent).toNat)

end Binary64

end ShapeLedger
