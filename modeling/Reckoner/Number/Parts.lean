/-!
# The parts of a double

A double is not a number, an infinity, or ±m·2^q with a natural mantissa. `ofDyadic` puts a value
together again that a double holds exactly.
-/
namespace Reckoner

/-- A double taken apart; `finite negative m q` stands for ±m·2^q. -/
inductive Parts where
  | nan
  | infinite (negative : Bool)
  | finite (negative : Bool) (mantissa : Nat) (exponent : Int)
deriving DecidableEq, Repr

namespace Parts

def ofBits (bits : Nat) : Parts :=
  let negative := decide (Nat.pow 2 63 ≤ bits)
  let scale : Nat := bits / Nat.pow 2 52 % Nat.pow 2 11
  let fraction := bits % Nat.pow 2 52
  if scale = 2047 then if fraction = 0 then infinite negative else nan
  else if scale = 0 then finite negative fraction (-1074)
  else finite negative (Nat.pow 2 52 + fraction) (Int.ofNat scale - 1075)

def ofFloat (x : Float) : Parts := ofBits x.toBits.toNat

end Parts

namespace Number

def infinity : Float := 1.0 / 0.0

def nan : Float := 0.0 / 0.0

/-- The mantissa below 2^53 and the exponent that a double stores for m·2^q. -/
def stored (m : Nat) (q : Int) : Nat × Int :=
  let e := max (q + m.log2 - 52) (-1074)
  (if e ≤ q then m * Nat.pow 2 (q - e).toNat else m / Nat.pow 2 (e - q).toNat, e)

/-- The double ±m·2^q, for a value that a double holds exactly. -/
def ofDyadic (negative : Bool) (m : Nat) (q : Int) : Float :=
  let (f, e) := stored m q
  let magnitude :=
    if f < Nat.pow 2 52 then f else (e + 1075).toNat * Nat.pow 2 52 + (f - Nat.pow 2 52)
  Float.ofBits (UInt64.ofNat (if negative then Nat.pow 2 63 + magnitude else magnitude))

def ofInteger (n : Int) : Float := ofDyadic (decide (n < 0)) n.natAbs 0

/-- The sign bit, which negative zero carries too. -/
def isNegative (x : Float) : Bool := Nat.pow 2 63 ≤ x.toBits.toNat

def copySign (x : Float) (sign : Float) : Float := if isNegative sign then -x.abs else x.abs

end Number
end Reckoner
