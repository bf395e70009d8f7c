import Reckoner.Number.Rounding

/-!
# Elementary functions

The transcendental functions that the library of operators and functions is built on. They are a
record, so that laws can be stated for any implementation; `Elementary.native` is the machine's.
An argument without a value is a domain fault, a finite argument with too great a value a range
fault.
-/
namespace Reckoner

inductive MathFault where
  | domain | range
deriving DecidableEq, Repr

/-- The elementary functions of one argument. -/
inductive Primitive where
  | sin | cos | tan | asin | acos | atan
  | sinh | cosh | tanh | asinh | acosh | atanh
  | sqrt | cbrt | exp | exp2 | log | log10 | log2
deriving DecidableEq, Repr

structure Elementary where
  unary : Primitive → Float → Except MathFault Float
  power : Float → Float → Except MathFault Float
  arctangent2 : Float → Float → Float

namespace Primitive

/-- Whether a finite argument can have a value beyond the greatest double. -/
def overflows : Primitive → Bool
  | exp | exp2 | sinh | cosh => true
  | _ => false

def native : Primitive → Float → Float
  | sin => Float.sin
  | cos => Float.cos
  | tan => Float.tan
  | asin => Float.asin
  | acos => Float.acos
  | atan => Float.atan
  | sinh => Float.sinh
  | cosh => Float.cosh
  | tanh => Float.tanh
  | asinh => Float.asinh
  | acosh => Float.acosh
  | atanh => Float.atanh
  | sqrt => Float.sqrt
  | cbrt => Float.cbrt
  | exp => Float.exp
  | exp2 => Float.exp2
  | log => Float.log
  | log10 => Float.log10
  | log2 => Float.log2

end Primitive

namespace Elementary

/-- The machine's functions: a value that is not a number for an argument that is one is a domain
fault, an infinite value for a finite argument a range fault or a pole. -/
def native : Elementary where
  unary f x :=
    let y := f.native x
    if y.isNaN && !x.isNaN then .error .domain
    else if y.isInf && x.isFinite then .error (if f.overflows then .range else .domain)
    else .ok y
  power x y :=
    let z := Float.pow x y
    if z.isFinite || !x.isFinite || !y.isFinite then .ok z
    else if z.isNaN || x == 0.0 then .error .domain
    else .error .range
  arctangent2 := Float.atan2

end Elementary
end Reckoner
