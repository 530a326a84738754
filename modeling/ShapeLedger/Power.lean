/-
The powers of the two bases that numbers are written in.
-/

namespace ShapeLedger

def twoPow (n : Nat) : Nat := Nat.pow 2 n

def tenPow (n : Nat) : Nat := Nat.pow 10 n

end ShapeLedger
