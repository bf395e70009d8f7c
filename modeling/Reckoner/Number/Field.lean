import Reckoner.Number.Integer

/-!
# Numbers in fields

Numbers that fields take from texts. An integer may have blanks around it, a plus sign, zeros in
front, zeros behind a point and single underscores; a double may have blanks around it or single
underscores anywhere inside.
-/
namespace Reckoner.Number

/-- Removes underscores, none of which may stand at an end or beside another one. -/
def withoutSingleUnderscores? (cs : List Char) : Option (List Char) :=
  match cs with
  | [] => some []
  | '_' :: _ => none
  | c :: '_' :: rest => (withoutSingleUnderscores? rest).bind fun ds =>
    if ds.isEmpty then none else some (c :: ds)
  | c :: rest => (withoutSingleUnderscores? rest).map (c :: ·)

/-- What is left of a number that starts with `last`, a zero or an underscore behind one. The
zeros go up to another digit, a minus sign or the last zero before a point. -/
def withoutZeros? (last : Char) : List Char → Option (List Char)
  | [] => some [last]
  | '.' :: cs => some (last :: '.' :: cs)
  | c :: cs =>
    if c = '0' || c = '_' then withoutZeros? c cs
    else if c.isDigit || c = '-' then some (c :: cs)
    else none

def withoutPlus? : List Char → Option (List Char)
  | '+' :: '-' :: _ => none
  | '+' :: cs => some cs
  | cs => some cs

/-- Without the zeros behind a point, of which there must be one. -/
def withoutZeroFraction? (cs : List Char) : Option (List Char) :=
  let whole := cs.takeWhile (· != '.')
  match cs.drop whole.length with
  | [] => some cs
  | _ :: fraction =>
    if !fraction.isEmpty && fraction.all (· == '0') then some whole else none

/-- An integer without zeros in front. -/
def plainInteger? (cs : List Char) : Option Int :=
  let (negative, ds) := match cs with
    | '-' :: ds => (true, ds)
    | ds => (false, ds)
  if ds.isEmpty || !ds.all Char.isDigit || (ds.head? = some '0' && ds ≠ ['0']) then none
  else
    let n : Int := natural ds
    some (if negative then -n else n)

/-- The integer of a field, or whether its text is too long for one. -/
def fieldInteger (text : String) : Except IntegerFault Int :=
  let cleaned := do
    let cs ← withoutPlus? (Text.trim Text.isSpace text.toList)
    let cs ← match cs with
      | '0' :: cs => withoutZeros? '0' cs
      | cs => some cs
    withoutSingleUnderscores? (← withoutZeroFraction? cs)
  match cleaned with
  | none => .error .malformed
  | some cs =>
    if digitLimit < cs.length then .error (.tooLong cs.length)
    else match plainInteger? cs with
      | some n => .ok n
      | none => .error .malformed

/-- The double of a field. -/
def fieldFloat? (text : String) : Option Float :=
  (signedLiteral? (Text.trim Text.isSpace text.toList)).orElse fun _ =>
    (withoutSingleUnderscores? text.toList).bind signedLiteral?

end Reckoner.Number
