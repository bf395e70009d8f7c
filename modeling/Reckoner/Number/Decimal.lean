import Reckoner.Number.Parts

/-!
# Decimal values of doubles

Every finite double is a decimal fraction, so its digits are exact natural numbers. `shortest`
finds the fewest digits that read back as the same double, and among equally short decimals the
nearest; `toSignificant` keeps a given number of digits, ties going to the even digit.
-/
namespace Reckoner

/-- The value `digits`·10^`exponent`. -/
structure Decimal where
  digits : Nat
  exponent : Int
deriving DecidableEq, Repr, Inhabited

namespace Decimal

/-- The value of m·2^q, exactly. -/
def ofDyadic (m : Nat) (q : Int) : Decimal :=
  if 0 ≤ q then ⟨m * Nat.pow 2 q.toNat, 0⟩ else ⟨m * Nat.pow 5 (-q).toNat, q⟩

/-- The double nearest to a decimal; a value beyond the greatest double becomes infinite. -/
def toFloat (d : Decimal) : Float :=
  Float.ofScientific d.digits (decide (d.exponent < 0)) d.exponent.natAbs

def numerals (n : Nat) : List Char := Nat.toDigits 10 n

/-- The number of digits. -/
def width (d : Decimal) : Nat := (numerals d.digits).length

/-- Without zeros at the end. -/
def stripped (d : Decimal) : Decimal :=
  if d.digits = 0 then ⟨0, 0⟩
  else
    let zeros := ((numerals d.digits).reverse.takeWhile (· == '0')).length
    ⟨d.digits / Nat.pow 10 zeros, d.exponent + zeros⟩

/-- Without the last `k` digits. -/
def below (d : Decimal) (k : Nat) : Decimal := ⟨d.digits / Nat.pow 10 k, d.exponent + k⟩

/-- The next decimal above `d.below k` on the same grid. -/
def above (d : Decimal) (k : Nat) : Decimal := ⟨d.digits / Nat.pow 10 k + 1, d.exponent + k⟩

/-- Whether a number with `k` digits cut off is nearer to `d.above k` than to `d.below k`; halfway
between them the even digit wins. -/
def roundsUp (d : Decimal) (k : Nat) : Bool :=
  let half := 2 * (d.digits % Nat.pow 10 k)
  half > Nat.pow 10 k || (half == Nat.pow 10 k && d.digits / Nat.pow 10 k % 2 == 1)

def nearest (d : Decimal) (k : Nat) : Decimal := if d.roundsUp k then d.above k else d.below k

/-- The number to `p` significant digits, at least one. -/
def toSignificant (d : Decimal) (p : Nat) : Decimal := d.nearest (d.width - max p 1)

/-- With the last `k` digits cut off, the nearer neighbour that reads back as `x`. -/
def readsBack? (x : Float) (d : Decimal) (k : Nat) : Option Decimal :=
  let first := d.nearest k
  let second := if d.roundsUp k then d.below k else d.above k
  if first.toFloat == x then some first
  else if second.toFloat == x then some second else none

/-- The shortest decimal that reads back as `x` when at most `k` digits of the exact value `d` may
be cut off. -/
def shortestFrom (x : Float) (d : Decimal) : Nat → Decimal
  | 0 => d
  | k + 1 => (readsBack? x d (k + 1)).getD (shortestFrom x d k)

/-- The shortest decimal that reads back as the positive double ±m·2^q. -/
def shortest (m : Nat) (q : Int) : Decimal :=
  let exact := ofDyadic m q
  (shortestFrom (Number.ofDyadic false m q) exact (exact.width - 1)).stripped

end Decimal
end Reckoner
