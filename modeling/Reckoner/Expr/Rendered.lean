import Reckoner.Number.Rounding
import Reckoner.Expr

/-!
# Rendered expressions

A tree as infix text with the fewest parentheses that keep its structure. Operands are enclosed by
comparing binding strengths; a negative number counts as a sign with its operand. A tree with an
operator that is unknown where its strength matters has no text.
-/
namespace Reckoner

namespace Number

/-- A number as it is rendered: integers below 10^16 without a point, infinities as a literal that
overflows, all others as the shortest text that reads back. -/
def renderedChars (x : Float) : List Char :=
  match Parts.ofFloat x with
  | .infinite negative => signed negative ['1', 'e', '9', '9', '9']
  | .finite negative m q =>
    let whole := if 0 ≤ q then m * Nat.pow 2 q.toNat else m / Nat.pow 2 (-q).toNat
    if isInteger x && whole < Nat.pow 10 16 then
      signed (negative && whole ≠ 0) (Decimal.numerals whole)
    else shortestChars x
  | .nan => shortestChars x

def rendered (x : Float) : String := String.ofList (renderedChars x)

end Number

namespace Expr

/-- The strength of a tree that needs no parentheses anywhere. -/
def atomStrength : Nat := 5

/-- The strengths by symbol; the word `unary` names the strength of signs. -/
def strengthOf? (op : String) : Option Nat :=
  if op = "unary" then some Sign.strength
  else (BinaryOperator.ofSymbol? op).map BinaryOperator.strength

/-- An operator without a strength. -/
def unknownOperator (op : String) : Failure := .host .lookup (Text.quoted op)

def strength : Expr → Except Failure Nat
  | binary _ op _ => match strengthOf? op with
    | some n => .ok n
    | none => .error (unknownOperator op)
  | unary .. => .ok Sign.strength
  | number x => .ok (if x < 0.0 then Sign.strength else atomStrength)
  | _ => .ok atomStrength

def enclose (needed : Bool) (text : String) : String := if needed then "(" ++ text ++ ")" else text

/-- The text of a tree. The base of a power is enclosed unless it is an atom, its exponent unless
it is a factor; a left operand is enclosed if it binds less than the operator, a right operand
also if it binds alike. -/
def render : Expr → Except Failure String
  | number x => .ok (Number.rendered x)
  | constant name => .ok name
  | unary op a => do
    let text ← render a
    return op ++ enclose ((← strength a) < Sign.strength) text
  | binary a op b => do
    let left ← render a
    let right ← render b
    let some s := strengthOf? op | throw (unknownOperator op)
    let l ← strength a
    let r ← strength b
    if op = "^" then
      return enclose (l ≤ s) left ++ "^" ++ enclose (r < Sign.strength) right
    else
      return enclose (l < s) left ++ " " ++ op ++ " " ++ enclose (r ≤ s) right
  | call f a => do
    return f ++ "(" ++ (← render a) ++ ")"

end Expr
end Reckoner
