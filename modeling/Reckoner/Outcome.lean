import Reckoner.Failure
import Reckoner.Number.Field

/-!
# Outcomes

What became of one expression: a value, or an error with its type and details, and how it is
shown.
-/
namespace Reckoner

structure Outcome where
  expression : String
  value : Option Float := none
  error : Option String := none
  errorType : Option String := none
  details : List (Datum × Datum) := []

/-- A number to `precision` significant digits; negative zero is shown as zero. -/
def formatNumber (x : Float) (precision : Int) : Except Failure String :=
  if precision < 0 then .error (.host .value "Format specifier missing precision")
  else if precision > 9223372036854775807 then
    .error (.host .value "Too many decimal digits in format string")
  else if precision > 2147483647 then .error (.host .value "precision too big")
  else
    let text := Number.generalText precision.toNat x
    .ok (if text = "-0" then "0" else text)

namespace Outcome

def ofFailure (expression : String) (e : Failure) : Outcome where
  expression
  error := some e.report.text
  errorType := some e.report.kind.label
  details := e.report.details.map fun d => (.text d.1, d.2)

def isOk (o : Outcome) : Bool := o.error.isNone

/-- The line that shows an outcome. -/
def format (o : Outcome) (precision : Int) : Except Failure String :=
  match o.error, o.value with
  | some e, _ => .ok s!"Error: {e}"
  | none, some x => (formatNumber x precision).map fun text => s!"Result: {text}"
  | none, none =>
    .error (.host .type "unsupported format string passed to NoneType.__format__")

/-- What is wrong with the fields that an outcome is to be made of: names of fields with kinds of
errors. -/
abbrev Defects := List (String × String)

def textField (fields : List (String × Datum)) (name : String) :
    Except (String × String) (Option String) :=
  match fields.lookup name with
  | none | some .null => .ok none
  | some (.text s) => .ok (some s)
  | some _ => .error (name, "string_type")

def floatField (fields : List (String × Datum)) (name : String) :
    Except (String × String) (Option Float) :=
  match fields.lookup name with
  | none | some .null => .ok none
  | some (.text s) => match Number.fieldFloat? s with
    | some x => .ok (some x)
    | none => .error (name, "float_parsing")
  | some (.bool b) => .ok (some (if b then 1.0 else 0.0))
  | some (.int n) =>
    let x := Float.ofInt n
    if x.isInf then .error (name, "float_type") else .ok (some x)
  | some (.float x) => .ok (some x)
  | some _ => .error (name, "float_type")

def defectsOf {α : Type} : Except (String × String) α → Defects
  | .ok _ => []
  | .error d => [d]

/-- An outcome from given fields; all defects are reported in the order of the fields. -/
def ofFields (fields : List (String × Datum)) : Except Defects Outcome :=
  let expression : Except (String × String) String := match fields.lookup "expression" with
    | none => .error ("expression", "missing")
    | some (.text s) => .ok s
    | some _ => .error ("expression", "string_type")
  let value := floatField fields "value"
  let error := textField fields "error"
  let errorType := textField fields "error_type"
  let details : Except (String × String) (List (Datum × Datum)) :=
    match fields.lookup "details" with
    | none => .ok []
    | some (.mapping entries) => .ok entries
    | some _ => .error ("details", "dict_type")
  match expression, value, error, errorType, details with
  | .ok expression, .ok value, .ok error, .ok errorType, .ok details =>
    .ok { expression, value, error, errorType, details }
  | _, _, _, _, _ =>
    .error (defectsOf expression ++ defectsOf value ++ defectsOf error ++ defectsOf errorType ++
      defectsOf details)

end Outcome
end Reckoner
