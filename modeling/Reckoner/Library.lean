import Reckoner.Failure
import Reckoner.Operator
import Reckoner.Library.Gamma

/-!
# The library of operators and functions

Operators and functions on doubles. Those with a restricted domain refuse what lies outside of it;
all others follow IEEE semantics, so that overflow gives an infinity and an undefined result is not
a number. `LibraryFunction` lists the functions that expressions can call, under their names.
-/
namespace Reckoner

/-- What escapes when an elementary function fails on an argument that was let through. -/
def MathFault.escaped : MathFault → Failure
  | domain => .host .value "math domain error"
  | range => .host .overflow "math range error"

namespace Library

def refuse (fault : DomainFault) : Except Failure Float := .error (.domain fault)

def escaping (r : Except MathFault Float) : Except Failure Float := r.mapError MathFault.escaped

/-- Overflow gives `limit`. -/
def saturating (limit : Float) (r : Except MathFault Float) : Except Failure Float :=
  match r with
  | .error .range => .ok limit
  | r => escaping r

def divide (a b : Float) : Except Failure Float :=
  if b == 0.0 then refuse .divisionByZero else .ok (a / b)

/-- The remainder with the sign of the dividend. -/
def modulo (a b : Float) : Except Failure Float :=
  if b == 0.0 then refuse .moduloByZero else .ok (Number.remainder a b)

variable (E : Elementary)

/-- A negative base with a fractional exponent gives not-a-number, zero to a negative power an
infinity, and overflow an infinity; their signs follow from an odd exponent. -/
def power (base exponent : Float) : Float :=
  match E.power base exponent with
  | .ok x => x
  | .error .range =>
    if base < 0.0 && Number.isOddInteger exponent then -Number.infinity else Number.infinity
  | .error .domain =>
    if base == 0.0 then
      if Number.isOddInteger exponent then Number.copySign Number.infinity base else Number.infinity
    else Number.nan

def sqrt (x : Float) : Except Failure Float :=
  if x < 0.0 then refuse .negativeRoot else escaping (E.unary .sqrt x)

def logarithm (f : Primitive) (fault : DomainFault) (x : Float) : Except Failure Float :=
  if x ≤ 0.0 then refuse fault else escaping (E.unary f x)

/-- Sine, cosine and tangent, which have no value at the infinities. -/
def periodic (f : Primitive) (x : Float) : Except Failure Float :=
  if x.isInf then .ok Number.nan else escaping (E.unary f x)

/-- Arcsine and arccosine, for arguments from -1 to 1. -/
def inverse (f : Primitive) (fault : DomainFault) (x : Float) : Except Failure Float :=
  if x < -1.0 || x > 1.0 then refuse fault else escaping (E.unary f x)

def sinh (x : Float) : Except Failure Float :=
  saturating (Number.copySign Number.infinity x) (E.unary .sinh x)

def acosh (x : Float) : Except Failure Float :=
  if x < 1.0 then refuse .hyperbolicArccosine else escaping (E.unary .acosh x)

def atanh (x : Float) : Except Failure Float :=
  if x ≤ -1.0 || x ≥ 1.0 then refuse .hyperbolicArctangent else escaping (E.unary .atanh x)

def factorial (n : Float) : Except Failure Float :=
  if n < 0.0 then refuse .negativeFactorial
  else if n > 170.0 then .error (.host .overflow "Factorial overflow (use arbitrary precision)")
  else escaping (Gamma.gamma E (n + 1.0))

end Library

/-- The functions that expressions can call. -/
inductive LibraryFunction where
  | sin | cos | tan | asin | acos | atan
  | sinh | cosh | tanh | asinh | acosh | atanh
  | sqrt | cbrt | abs | exp | exp2 | ln | log | log2
  | floor | ceil | round
deriving DecidableEq, Repr

namespace LibraryFunction

/-- All functions in the order of their registration. -/
def all : List LibraryFunction :=
  [sin, cos, tan, asin, acos, atan, sinh, cosh, tanh, asinh, acosh, atanh,
    sqrt, cbrt, abs, exp, exp2, ln, log, log2, floor, ceil, round]

/-- The name in expressions: `ln` is the natural logarithm, `log` the one to the base 10. -/
def name : LibraryFunction → String
  | sin => "sin"
  | cos => "cos"
  | tan => "tan"
  | asin => "asin"
  | acos => "acos"
  | atan => "atan"
  | sinh => "sinh"
  | cosh => "cosh"
  | tanh => "tanh"
  | asinh => "asinh"
  | acosh => "acosh"
  | atanh => "atanh"
  | sqrt => "sqrt"
  | cbrt => "cbrt"
  | abs => "abs"
  | exp => "exp"
  | exp2 => "exp2"
  | ln => "ln"
  | log => "log"
  | log2 => "log2"
  | floor => "floor"
  | ceil => "ceil"
  | round => "round"

def ofName? (name : String) : Option LibraryFunction := all.find? (·.name == name)

open Library in
def apply (E : Elementary) : LibraryFunction → Float → Except Failure Float
  | sin => periodic E .sin
  | cos => periodic E .cos
  | tan => periodic E .tan
  | asin => inverse E .asin .arcsine
  | acos => inverse E .acos .arccosine
  | atan => escaping ∘ E.unary .atan
  | sinh => Library.sinh E
  | cosh => saturating Number.infinity ∘ E.unary .cosh
  | tanh => escaping ∘ E.unary .tanh
  | asinh => escaping ∘ E.unary .asinh
  | acosh => Library.acosh E
  | atanh => Library.atanh E
  | sqrt => Library.sqrt E
  | cbrt => escaping ∘ E.unary .cbrt
  | abs => .ok ∘ Float.abs
  | exp => saturating Number.infinity ∘ E.unary .exp
  | exp2 => saturating Number.infinity ∘ E.unary .exp2
  | ln => logarithm E .log .log
  | log => logarithm E .log10 .log10
  | log2 => logarithm E .log2 .log2
  | floor => .ok ∘ Number.floor
  | ceil => .ok ∘ Number.ceil
  | round => .ok ∘ Number.round

end LibraryFunction

def Sign.apply : Sign → Float → Float
  | plus, x => x
  | minus, x => -x

def BinaryOperator.apply (E : Elementary) : BinaryOperator → Float → Float → Except Failure Float
  | add, a, b => .ok (a + b)
  | subtract, a, b => .ok (a - b)
  | multiply, a, b => .ok (a * b)
  | divide, a, b => Library.divide a b
  | modulo, a, b => Library.modulo a b
  | power, a, b => .ok (Library.power E a b)

end Reckoner
