import Reckoner.Number.Written

/-!
# Numbers with given places

Doubles with a given number of digits behind the point, positional or scientific, or with a given
number of digits in all. Ties go to the even digit.
-/
namespace Reckoner.Number

/-- The digits of a decimal with `places` of them behind the point. -/
def placesOf (d : Decimal) (places : Nat) : List Char :=
  let cut := (-d.exponent - places).toNat
  let rounded := d.nearest cut
  let n := rounded.digits * Nat.pow 10 (rounded.exponent + places).toNat
  let ds := Decimal.numerals n
  let ds := List.replicate (places + 1 - ds.length) '0' ++ ds
  let whole := ds.take (ds.length - places)
  if places = 0 then whole else whole ++ '.' :: ds.drop (ds.length - places)

/-- One digit before the point, `places` behind it, and an exponent. -/
def scientificOf (d : Decimal) (places : Nat) : List Char :=
  let d := if d.digits = 0 then d else d.toSignificant (places + 1)
  let ds := (Decimal.numerals d.digits).take (places + 1)
  let exponent := if d.digits = 0 then 0 else d.exponent + d.width - 1
  let ds := ds ++ List.replicate (places + 1 - ds.length) '0'
  match ds with
  | [] => []
  | [c] => c :: scientificExponent exponent
  | c :: more => c :: '.' :: more ++ scientificExponent exponent

/-- The notation of `p` significant digits with the zeros at their end. -/
def generalOf (d : Decimal) (p : Nat) : List Char :=
  let d := d.toSignificant p
  let ds := (Decimal.numerals d.digits).take (max p 1)
  let exponent := if d.digits = 0 then 0 else d.exponent + d.width - 1
  layout (generalStyle p) (ds ++ List.replicate (max p 1 - ds.length) '0') exponent

/-- Puts a point behind the digits of a number that has none. -/
def withPoint (cs : List Char) : List Char :=
  let whole := cs.takeWhile Char.isDigit
  match cs.drop whole.length with
  | '.' :: _ => cs
  | rest => whole ++ '.' :: rest

/-- A magnitude written by a function of its exact value, without a sign. -/
def magnitude (write : Decimal → List Char) (x : Float) : List Char :=
  match Parts.ofFloat x with
  | .nan => ['n', 'a', 'n']
  | .infinite _ => ['i', 'n', 'f']
  | .finite _ m q => write (Decimal.ofDyadic m q)

end Reckoner.Number
