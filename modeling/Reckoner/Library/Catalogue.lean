import Reckoner.Context

/-!
# The catalogue of routines

All operators and functions of the library as routines under their own names, with their
parameters. A call with a wrong number of arguments fails.
-/
namespace Reckoner

structure Routine where
  name : String
  parameters : List String
  run : List Float → Except Failure Datum

namespace Routine

def quotedList : List String → String
  | [] => ""
  | [a] => Text.quoted a
  | [a, b] => s!"{Text.quoted a} and {Text.quoted b}"
  | a :: more => s!"{Text.quoted a}, {quotedList more}"

/-- A call with any number of arguments. -/
def call (r : Routine) (arguments : List Float) : Except Failure Datum :=
  let given := arguments.length
  let wanted := r.parameters.length
  let plural (n : Nat) : String := if n = 1 then "argument" else "arguments"
  if given < wanted then
    let missing := r.parameters.drop given
    .error (.host .type (s!"{r.name}() missing {missing.length} required positional " ++
      s!"{plural missing.length}: {quotedList missing}"))
  else if given > wanted then
    .error (.host .type (s!"{r.name}() takes {wanted} positional {plural wanted} but " ++
      s!"{given} were given"))
  else r.run arguments

def unary (name parameter : String) (f : Float → Except Failure Float) : Routine where
  name
  parameters := [parameter]
  run := fun
    | [x] => (f x).map .float
    | _ => .ok .null

def binary (name left right : String) (f : Float → Float → Except Failure Float) : Routine where
  name
  parameters := [left, right]
  run := fun
    | [x, y] => (f x y).map .float
    | _ => .ok .null

/-- The name of a library function's own routine. -/
def nameOf : LibraryFunction → String
  | .ln => "log"
  | .log => "log10"
  | .abs => "fabs"
  | .round => "round_half_away"
  | f => f.name

def ofFunction (E : Elementary) (f : LibraryFunction) : Routine := unary (nameOf f) "x" (f.apply E)

def ofOperator (E : Elementary) : BinaryOperator → Routine
  | .add => binary "add" "a" "b" (BinaryOperator.add.apply E)
  | .subtract => binary "subtract" "a" "b" (BinaryOperator.subtract.apply E)
  | .multiply => binary "multiply" "a" "b" (BinaryOperator.multiply.apply E)
  | .divide => binary "divide" "a" "b" Library.divide
  | .modulo => binary "modulo" "a" "b" Library.modulo
  | .power => binary "power" "base" "exponent" (BinaryOperator.power.apply E)

def ofSign : Sign → Routine
  | .plus => unary "float" "x" .ok
  | .minus => unary "negate" "x" fun x => .ok (-x)

/-- The routines that are no library functions. -/
def others (E : Elementary) : List Routine :=
  [.add, .subtract, .multiply, .divide, .modulo, .power].map (ofOperator E) ++
  [ofSign .minus,
    { name := "_is_odd_integer"
      parameters := ["x"]
      run := fun
        | [x] => .ok (.bool (Number.isOddInteger x))
        | _ => .ok .null },
    binary "atan2" "y" "x" fun y x => .ok (E.arctangent2 y x),
    unary "factorial" "n" (Library.factorial E)]

/-- The library function whose routine has a name. -/
def function? (name : String) : Option LibraryFunction :=
  LibraryFunction.all.find? (nameOf · == name)

def ofName? (E : Elementary) (name : String) : Option Routine :=
  match function? name with
  | some f => some (ofFunction E f)
  | none => (others E).find? (·.name == name)

/-- A routine as a function of a context. -/
def callable (E : Elementary) (name : String) : Option Callable :=
  match function? name with
  | some f => some (.library f)
  | none => (ofName? E name).map fun r => .host fun x => r.call [x]

end Routine
end Reckoner
