import Reckoner.Number.Typed
import Reckoner.Text.Quoted

/-!
# Integers and their texts

Reading integers in a base: blanks around them, a sign, the mark of the base, digits of any script
and single underscores between them. Decimal texts of integers have at most `digitLimit` digits,
in both directions.
-/
namespace Reckoner.Number

/-- The greatest number of decimal digits that an integer may be read from or written with. -/
def digitLimit : Nat := 4300

/-- Why a text is no integer. -/
inductive IntegerFault where
  | malformed
  | tooLong (digits : Nat)
deriving DecidableEq, Repr

def digitOf? (base : Nat) (c : Char) : Option Nat :=
  let n := c.toNat
  let value := if c.isDigit then n - 48
    else if 97 ≤ n && n ≤ 122 then n - 87
    else if 65 ≤ n && n ≤ 90 then n - 55
    else base
  if value < base then some value else none

/-- The letter that marks a base behind a zero. -/
def baseLetter? : Nat → Option Char
  | 2 => some 'b'
  | 8 => some 'o'
  | 16 => some 'x'
  | _ => none

/-- Without the mark of the base, behind which an underscore may stand. -/
def withoutBaseMark (base : Nat) : List Char → List Char
  | '0' :: c :: cs =>
    if baseLetter? base = some c.toLower then
      match cs with
      | '_' :: ds => ds
      | ds => ds
    else '0' :: c :: cs
  | cs => cs

/-- The digits of a run in which each underscore stands between two of them. -/
def ungrouped? : List Char → Option (List Char)
  | [] => none
  | '_' :: _ => none
  | c :: '_' :: cs => (ungrouped? cs).map (c :: ·)
  | [c] => some [c]
  | c :: cs => (ungrouped? cs).map (c :: ·)

def valueIn (base : Nat) (ds : List Char) : Nat :=
  ds.foldl (fun n c => base * n + (digitOf? base c).getD 0) 0

/-- A free-form integer. Of a decimal run that is too long the length is wrong, whatever follows. -/
def typedInteger (base : Nat) (text : String) : Except IntegerFault Int :=
  let (negative, cs) := splitSign (Text.trim (· == ' ') (text.toList.map Text.plain))
  let cs := withoutBaseMark base cs
  let run := cs.takeWhile fun c => (digitOf? base c).isSome || c = '_'
  match ungrouped? run with
  | none => .error .malformed
  | some ds =>
    if (baseLetter? base).isNone && digitLimit < ds.length then .error (.tooLong ds.length)
    else if run.length < cs.length then .error .malformed
    else
      let n : Int := valueIn base ds
      .ok (if negative then -n else n)

/-- What is wrong with a text that was read as an integer; a long text is cut off. -/
def IntegerFault.message (base : Nat) (text : String) : IntegerFault → String
  | malformed =>
    let shown := String.ofList ((Text.quoted text).toList.take 200)
    s!"invalid literal for int() with base {base}: {shown}"
  | tooLong digits =>
    s!"Exceeds the limit ({digitLimit} digits) for integer string conversion: value has " ++
      s!"{digits} digits; use sys.set_int_max_str_digits() to increase the limit"

/-- Whether an integer has a decimal text. -/
def isWritable (n : Int) : Bool := n.natAbs < Nat.pow 10 digitLimit

def notWritable : String :=
  s!"Exceeds the limit ({digitLimit} digits) for integer string conversion; " ++
    "use sys.set_int_max_str_digits() to increase the limit"

end Reckoner.Number
