import Reckoner.Failure

/-!
# Data values as doubles

The double that a data value stands for. Truth values count as one and zero, texts are read as
free-form numbers; an integer beyond the greatest double and every other kind of value fails.
-/
namespace Reckoner.Datum

def notANumberText (text : String) : Failure :=
  .host .value s!"could not convert string to float: {Text.quoted text}"

def notNumeric (d : Datum) : Failure :=
  .host .type s!"float() argument must be a string or a real number, not '{d.kind}'"

def tooLarge : Failure := .host .overflow "int too large to convert to float"

def toFloat : Datum → Except Failure Float
  | bool b => .ok (if b then 1.0 else 0.0)
  | int n =>
    let x := Float.ofInt n
    if x.isInf then .error tooLarge else .ok x
  | float x => .ok x
  | text s => match Number.typed? s with
    | some x => .ok x
    | none => .error (notANumberText s)
  | d => .error (notNumeric d)

end Reckoner.Datum
