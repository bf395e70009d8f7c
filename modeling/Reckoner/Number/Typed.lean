import Reckoner.Number.Decimal
import Reckoner.Text.Digit

/-!
# Typed numbers

Reading decimal literals and free-form numbers. A literal is digits with at most one point and an
optional exponent; a free-form number may have blanks around it, a sign, single underscores between
digits, digits of any script, and the words for infinity and not-a-number.
-/
namespace Reckoner.Number

/-- The value of a run of ASCII digits. -/
def natural (ds : List Char) : Nat := ds.foldl (fun n c => 10 * n + (c.toNat - 48)) 0

/-- Splits off `e` or `E`, an optional sign and at least one digit. -/
def exponent? : List Char → Option (Int × List Char)
  | [] => none
  | e :: cs =>
    if e != 'e' && e != 'E' then none
    else
      let (negative, ds) := match cs with
        | '-' :: ds => (true, ds)
        | '+' :: ds => (false, ds)
        | ds => (false, ds)
      match ds.takeWhile Char.isDigit with
      | [] => none
      | run =>
        let n : Int := natural run
        some (if negative then -n else n, ds.dropWhile Char.isDigit)

/-- The value of a whole literal: digits with at most one point and at least one digit, then
perhaps an exponent. -/
def literal? (cs : List Char) : Option Decimal :=
  let whole := cs.takeWhile Char.isDigit
  let (fraction, rest) := match cs.dropWhile Char.isDigit with
    | '.' :: more => (more.takeWhile Char.isDigit, more.dropWhile Char.isDigit)
    | rest => ([], rest)
  if whole.isEmpty && fraction.isEmpty then none
  else
    let digits := natural (whole ++ fraction)
    match rest, exponent? rest with
    | [], _ => some ⟨digits, -fraction.length⟩
    | _, some (e, []) => some ⟨digits, e - fraction.length⟩
    | _, _ => none

/-- Removes underscores, each of which must stand between two digits. -/
def withoutUnderscores? : Char → List Char → Option (List Char)
  | last, [] => if last = '_' then none else some []
  | last, '_' :: cs => if last.isDigit then withoutUnderscores? '_' cs else none
  | last, c :: cs =>
    if last = '_' && !c.isDigit then none else (withoutUnderscores? c cs).map (c :: ·)

/-- A leading sign, as whether it is a minus, and the rest. -/
def splitSign : List Char → Bool × List Char
  | '-' :: cs => (true, cs)
  | '+' :: cs => (false, cs)
  | cs => (false, cs)

def named? (cs : List Char) : Option Float :=
  let word := String.ofList (cs.map Char.toLower)
  if word = "inf" || word = "infinity" then some infinity
  else if word = "nan" then some nan
  else none

/-- A literal with a sign, or a word for infinity or not-a-number. -/
def signedLiteral? (cs : List Char) : Option Float := do
  let (negative, cs) := splitSign cs
  let x ← (named? cs).orElse fun _ => (literal? cs).map Decimal.toFloat
  return if negative then -x else x

/-- A free-form number. -/
def typed? (text : String) : Option Float :=
  (withoutUnderscores? ' ' (Text.trim (· == ' ') (text.toList.map Text.plain))).bind signedLiteral?

end Reckoner.Number
