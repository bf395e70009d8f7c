import Reckoner.Number.Parts

/-!
# Exact rounding and remainders

Integer parts and remainders of doubles, computed on their mantissas without rounding error.
Infinities and not-a-number pass through the roundings unchanged.
-/
namespace Reckoner.Number

/-- The greatest integer not above ±m·2^q. -/
def floorOf (negative : Bool) (m : Nat) (q : Int) : Int :=
  let scaled : Int := if 0 ≤ q then (m * Nat.pow 2 q.toNat : Nat) else m
  let signed := if negative then -scaled else scaled
  if 0 ≤ q then signed else signed / Nat.pow 2 (-q).toNat

/-- The greatest integer below or at a finite value, as a double without a signed zero. -/
def floor (x : Float) : Float :=
  match Parts.ofFloat x with
  | .finite negative m q => ofInteger (floorOf negative m q)
  | _ => x

def ceil (x : Float) : Float :=
  match Parts.ofFloat x with
  | .finite negative m q => ofInteger (-floorOf (!negative) m q)
  | _ => x

/-- The whole part of |x|, or one more if at least a half is left of it. -/
def carried (x : Float) (whole : Int) : Int :=
  if x.abs - ofInteger whole ≥ 0.5 then whole + 1 else whole

/-- The nearest integer, halves away from zero; the sign stays, also on zero. -/
def round (x : Float) : Float :=
  match Parts.ofFloat x with
  | .finite _ m q => copySign (ofInteger (carried x (floorOf false m q))) x
  | _ => x

def isInteger (x : Float) : Bool :=
  match Parts.ofFloat x with
  | .finite _ m q => decide (0 ≤ q) || m % Nat.pow 2 (-q).toNat == 0
  | _ => false

def isOddInteger (x : Float) : Bool :=
  match Parts.ofFloat x with
  | .finite _ m q =>
    isInteger x && (if 0 ≤ q then m * Nat.pow 2 q.toNat else m / Nat.pow 2 (-q).toNat) % 2 == 1
  | _ => false

/-- The exact remainder of a division that truncates, with the sign of the dividend. It is not a
number when the dividend is infinite or the divisor zero. -/
def remainder (x y : Float) : Float :=
  match Parts.ofFloat x, Parts.ofFloat y with
  | .finite negative m q, .finite _ n r =>
    if n = 0 then nan
    else
      let e := min q r
      ofDyadic negative (m * Nat.pow 2 (q - e).toNat % (n * Nat.pow 2 (r - e).toNat)) e
  | .finite .., .infinite _ => x
  | _, _ => nan

end Reckoner.Number
