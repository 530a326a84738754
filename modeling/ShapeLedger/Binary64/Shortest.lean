/-
The shortest decimal of a finite binary64 magnitude: the fewest digits that read back as the same
datum and, of those, the ones nearest to it.
-/
import ShapeLedger.Binary64.Basic

namespace ShapeLedger.Binary64

/-- The decimal `digits · 10 ^ exponent`. -/
structure Decimal where
  digits : Nat
  exponent : Int
deriving DecidableEq, Repr

/-- How `a · 2 ^ p` compares with `b · 10 ^ q`, by exact arithmetic. -/
def compareScaled (a : Nat) (p : Int) (b : Nat) (q : Int) : Ordering :=
  compare (a * twoPow p.toNat * tenPow (-q).toNat) (b * tenPow q.toNat * twoPow (-p).toNat)

/-- The midpoint below a magnitude, as a multiple of a quarter of its last place. The gap below the
least significand of a binade is half as wide. -/
def quartersBelow (x : Binary64) : Nat :=
  let leastOfBinade := x.significand = twoPow 52 && x.unit ≠ -1074
  4 * x.significand - if leastOfBinade then 1 else 2

/-- The midpoint above a magnitude, in the same quarters. -/
def quartersAbove (x : Binary64) : Nat := 4 * x.significand + 2

/-- Whether `b · 10 ^ q` rounds to the magnitude of `x`: it lies between the two midpoints, the
midpoints themselves counting when the significand is even. -/
def readsBack (x : Binary64) (b : Nat) (q : Int) : Bool :=
  let low := compareScaled x.quartersBelow (x.unit - 2) b q
  let high := compareScaled x.quartersAbove (x.unit - 2) b q
  if x.significand % 2 = 0 then low.isLE && high.isGE else low.isLT && high.isGT

/-- The multiple of `10 ^ q` at or below the magnitude. -/
def gridBelow (x : Binary64) (q : Int) : Nat :=
  x.significand * twoPow x.unit.toNat * tenPow (-q).toNat /
    (twoPow (-x.unit).toNat * tenPow q.toNat)

/-- Which of two neighbours on a grid is taken when the magnitude lies halfway between them. -/
inductive Tie where
  | toEven
  | up
deriving DecidableEq, Repr

/-- Whether the upper neighbour is taken rather than the one below. -/
def Tie.takesUpper : Tie → Nat → Bool
  | toEven, below => below % 2 = 1
  | up, _ => true

/-- Whether the upper of two neighbours on the grid is the one to take: twice the magnitude is
compared with their sum. -/
def takesUpper (x : Binary64) (tie : Tie) (below : Nat) (q : Int) : Bool :=
  match compareScaled (2 * x.significand) x.unit (2 * below + 1) q with
  | .lt => false
  | .eq => tie.takesUpper below
  | .gt => true

/-- The neighbour of the magnitude on the grid of `10 ^ q` that reads back, if one does. -/
def onGrid? (x : Binary64) (tie : Tie) (q : Int) : Option Nat :=
  let below := x.gridBelow q
  match x.readsBack below q, x.readsBack (below + 1) q with
  | true, true => some (if x.takesUpper tie below q then below + 1 else below)
  | true, false => some below
  | false, true => some (below + 1)
  | false, false => none

/-- The greatest `e` with `10 ^ e ≤` the magnitude, searched downwards from an upper bound. -/
def floorLog10 (x : Binary64) : Nat → Int → Int
  | 0, e => e
  | steps + 1, e =>
    if (compareScaled x.significand x.unit 1 e).isGE then e else x.floorLog10 steps (e - 1)

/-- An upper bound of the decimal exponent: `log 2 < 0.302`. -/
def log10Bound (x : Binary64) : Int :=
  let e : Int := x.unit + x.significand.log2
  if 0 ≤ e then (e * 302) / 1000 + 1 else (e * 301) / 1000 + 1

/-- Tries grids of ever more digits, from the top place down. -/
def search (x : Binary64) (tie : Tie) (top : Int) : Nat → Nat → Decimal
  | 0, n => ⟨x.gridBelow (top - n), top - n⟩
  | steps + 1, n =>
    match x.onGrid? tie (top - n) with
    | some d => ⟨d, top - n⟩
    | none => x.search tie top steps (n + 1)

/-- Moves trailing zeros of the digits into the exponent. -/
def Decimal.trim (d : Decimal) : Decimal :=
  if h : d.digits ≠ 0 ∧ d.digits % 10 = 0 then Decimal.trim ⟨d.digits / 10, d.exponent + 1⟩ else d
termination_by d.digits
decreasing_by omega

/-- The shortest decimal of a finite nonzero magnitude; seventeen digits always suffice. -/
def shortest (x : Binary64) (tie : Tie) : Decimal :=
  (x.search tie (x.floorLog10 16 x.log10Bound) 17 0).trim

end ShapeLedger.Binary64
