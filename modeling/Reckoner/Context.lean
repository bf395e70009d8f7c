import Reckoner.Cursor
import Reckoner.Datum.Number
import Reckoner.Library
import Reckoner.Table

/-!
# Contexts

The functions and constants that names in an expression stand for. Names must be identifiers; the
latest registration of a name holds. A failed registration gives no context at all.
-/
namespace Reckoner

/-- A function of a context: one of the library, or one of the host, whose result is any value. -/
inductive Callable where
  | library (f : LibraryFunction)
  | host (run : Float → Except Failure Datum)

def Callable.apply (E : Elementary) : Callable → Float → Except Failure Float
  | library f, x => f.apply E x
  | host run, x => (run x).bind Datum.toFloat

structure Context where
  name : String
  functions : Table Callable := []
  constants : Table Float := []

namespace Context

def empty (name : String) : Context := { name }

def function? (c : Context) (name : String) : Option Callable := c.functions.get? name

def constant? (c : Context) (name : String) : Option Float := c.constants.get? name

/-- Registers a function; a value that is not one is refused. -/
def registerFunction (c : Context) (name : String) (f : Except Datum Callable) :
    Except Failure Context :=
  if !isIdentifier name then .error (.invalidName name)
  else match f with
    | .ok f => .ok { c with functions := c.functions.put name f }
    | .error d => .error (.host .type s!"Function '{name}' must be callable, got {d.kind}")

/-- Registers the number that a value stands for. -/
def registerConstant (c : Context) (name : String) (value : Datum) : Except Failure Context :=
  if !isIdentifier name then .error (.invalidName name)
  else match value.toFloat with
    | .ok x => .ok { c with constants := c.constants.put name x }
    | .error e => .error e

/-- The constants of the standard context: π, e and the golden ratio. -/
def standardConstants : Table Float :=
  [("pi", 3.14159265358979323846), ("e", 2.71828182845904523536), ("phi", 1.61803398874989484820)]

/-- All library functions under their own names, and the standard constants. -/
def standard : Context where
  name := "Standard"
  functions := LibraryFunction.all.map fun f => (f.name, .library f)
  constants := standardConstants

/-- The names of the functions in order. -/
def functionNames (c : Context) : List String := c.functions.sorted.keys

end Context
end Reckoner
