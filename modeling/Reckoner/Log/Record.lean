import Reckoner.Datum

/-!
# Log records

A record has a level, the name of its logger, a message, and named fields. Levels are compared by
their rank.
-/
namespace Reckoner.Log

inductive Level where
  | debug | info | warning | error | critical
deriving DecidableEq, Repr

namespace Level

def label : Level → String
  | debug => "DEBUG"
  | info => "INFO"
  | warning => "WARNING"
  | error => "ERROR"
  | critical => "CRITICAL"

def rank : Level → Nat
  | debug => 10
  | info => 20
  | warning => 30
  | error => 40
  | critical => 50

/-- A level by its name in upper case, with two short names. -/
def ofLabel? (name : String) : Option Level :=
  if name = "WARN" then some warning
  else if name = "FATAL" then some critical
  else [debug, info, warning, error, critical].find? (·.label == name)

end Level

structure Record where
  level : Level
  logger : String
  message : String
  fields : List (String × Datum) := []

/-- Fields of a record over the fixed fields of its logger, whose places they take. -/
def mergeFields (fixed fields : List (String × Datum)) : List (String × Datum) :=
  fields.foldl (fun all (key, value) =>
    if all.any (·.1 == key) then all.map fun f => if f.1 == key then (key, value) else f
    else all ++ [(key, value)]) fixed

end Reckoner.Log
