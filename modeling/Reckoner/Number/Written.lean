import Reckoner.Number.Decimal

/-!
# Written numbers

Doubles as text. One layout serves two styles: the shortest text that reads back, and a given
number of significant digits. Positional and scientific notation change places by the decimal
exponent; a scientific exponent has a sign and at least two digits.
-/
namespace Reckoner.Number

/-- The choices that one style of writing numbers makes. -/
structure Style where
  /-- The first decimal exponent that is too great for positional notation. -/
  positionalBelow : Int
  /-- The least decimal exponent for positional notation. -/
  positionalFrom : Int := -4
  /-- Whether a positional integer ends in a point and a zero. -/
  pointZero : Bool

def scientificExponent (e : Int) : List Char :=
  let ds := Decimal.numerals e.natAbs
  'e' :: (if e < 0 then '-' else '+') :: (if ds.length < 2 then '0' :: ds else ds)

/-- The digits of a number whose first digit has the decimal exponent `e`. -/
def layout (style : Style) (ds : List Char) (e : Int) : List Char :=
  if style.positionalFrom ≤ e && e < style.positionalBelow then
    if e < 0 then '0' :: '.' :: List.replicate (-e - 1).toNat '0' ++ ds
    else
      let whole := e.toNat + 1
      let integer := ds.take whole ++ List.replicate (whole - ds.length) '0'
      match ds.drop whole with
      | [] => if style.pointZero then integer ++ ['.', '0'] else integer
      | fraction => integer ++ '.' :: fraction
  else match ds with
    | [] => []
    | [c] => c :: scientificExponent e
    | c :: fraction => c :: '.' :: fraction ++ scientificExponent e

def writeDecimal (style : Style) (d : Decimal) : List Char :=
  let d := d.stripped
  layout style (Decimal.numerals d.digits) (d.exponent + d.width - 1)

def signed (negative : Bool) (cs : List Char) : List Char := if negative then '-' :: cs else cs

/-- The shortest text that reads back: positional below 10^16, integers with a point and a zero. -/
def shortestStyle : Style := { positionalBelow := 16, pointZero := true }

def shortestChars (x : Float) : List Char :=
  match Parts.ofFloat x with
  | .nan => ['n', 'a', 'n']
  | .infinite negative => signed negative ['i', 'n', 'f']
  | .finite negative m q => signed negative (writeDecimal shortestStyle (Decimal.shortest m q))

/-- The shortest text that reads back as the same double. -/
def shortestText (x : Float) : String := String.ofList (shortestChars x)

/-- The notation of `p` significant digits: positional while the digits reach the point. -/
def generalStyle (p : Nat) : Style := { positionalBelow := max p 1, pointZero := false }

def generalChars (p : Nat) (x : Float) : List Char :=
  match Parts.ofFloat x with
  | .nan => ['n', 'a', 'n']
  | .infinite negative => signed negative ['i', 'n', 'f']
  | .finite negative m q =>
    signed negative (writeDecimal (generalStyle p) ((Decimal.ofDyadic m q).toSignificant p))

/-- A number to `p` significant digits without zeros at the end. -/
def generalText (p : Nat) (x : Float) : String := String.ofList (generalChars p x)

end Reckoner.Number
