/-
The written forms of binary64 data in messages. Both take the shortest decimal; they differ in
where positional notation ends, and in which of two equally near decimals they take.
-/
import ShapeLedger.Binary64.Shortest

namespace ShapeLedger.Binary64

/-- Which decimal exponents of the leading digit are written without an exponent part, and which of
two equally near decimals is written. -/
structure Notation where
  positional : Int → Bool
  tie : Tie

/-- Positional from one hundred-thousandth up to, and not including, ten to the sixteenth. -/
def compactNotation : Notation := ⟨fun e => -5 ≤ e && e ≤ 15, .toEven⟩

/-- Positional whatever the size. -/
def plainNotation : Notation := ⟨fun _ => true, .up⟩

/-- Digits with the point placed `exponent` places from their end; a whole number ends in `.0`. -/
def positionalText (digits : String) (exponent : Int) : String :=
  if 0 ≤ exponent then digits ++ "".pushn '0' exponent.toNat ++ ".0"
  else
    let places := (-exponent).toNat
    let whole := digits.length - places
    if places < digits.length then
      String.ofList (digits.toList.take whole) ++ "." ++ String.ofList (digits.toList.drop whole)
    else "0." ++ "".pushn '0' (places - digits.length) ++ digits

/-- One digit before the point, the exponent with its sign. -/
def scientificText (digits : String) (leading : Int) : String :=
  let head := String.ofList (digits.toList.take 1)
  let tail := String.ofList (digits.toList.drop 1)
  let mantissa := if tail.isEmpty then head else head ++ "." ++ tail
  mantissa ++ (if leading < 0 then "e-" else "e+") ++ toString leading.natAbs

def text (style : Notation) (x : Binary64) : String :=
  if x.isNaN then "NaN"
  else
    let sign := if x.negative then "-" else ""
    if x.isInfinite then sign ++ "inf"
    else if x.isZero then sign ++ "0.0"
    else
      let d := x.shortest style.tie
      let digits := toString d.digits
      let leading := d.exponent + digits.length - 1
      sign ++ (if style.positional leading then positionalText digits d.exponent
        else scientificText digits leading)

end ShapeLedger.Binary64
