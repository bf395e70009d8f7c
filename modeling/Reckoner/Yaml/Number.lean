import Reckoner.Datum.Number
import Reckoner.Text.Case
import Reckoner.Yaml.Tag.Spelling

/-!
# Numbers and truth values in YAML documents

The values of scalars that are tagged as numbers or truth values, whatever their spelling. Behind a
sign, integers and floats are free-form numbers without underscores; those with colons have
sexagesimal places.
-/
namespace Reckoner.Yaml

open Spelling

def outOfIndex {α : Type} : Result α := escaped .index "string index out of range"

/-- Splits off the sign of a number that must not be empty. -/
def sign (cs : List Char) : Result (Bool × List Char) :=
  match cs with
  | [] => outOfIndex
  | _ => .ok (Number.splitSign cs)

def integerIn (base : Nat) (cs : List Char) : Result Int :=
  let text := String.ofList cs
  match Number.typedInteger base text with
  | .ok n => .ok n
  | .error fault => escaped .value (fault.message base text)

/-- The value of sexagesimal places. -/
def sixties (ns : List Int) : Int := ns.foldl (fun total n => 60 * total + n) 0

/-- An integer: binary, hexadecimal, octal after a zero, sexagesimal or decimal. -/
def integer (text : String) : Result Int := do
  let (negative, cs) ← sign (text.toList.filter (· != '_'))
  let n ← match cs with
    | [] => outOfIndex
    | ['0'] => .ok 0
    | '0' :: 'b' :: ds => integerIn 2 ds
    | '0' :: 'x' :: ds => integerIn 16 ds
    | '0' :: _ => integerIn 8 cs
    | _ =>
      if cs.contains ':' then return ← (do
        let n := sixties (← (pieces ':' cs).mapM (integerIn 10))
        return if negative then -n else n)
      else integerIn 10 cs
  return if negative then -n else n

def decimal (cs : List Char) : Result Float :=
  match (Datum.text (String.ofList cs)).toFloat with
  | .ok x => .ok x
  | .error e => .error (.escaped e)

/-- The value of sexagesimal places, the last of which has the given weight. -/
def sixtiesFrom (weight : Nat) (total : Float) : List Float → Result Float
  | [] => .ok total
  | x :: xs => match (Datum.int weight).toFloat with
    | .error e => .error (.escaped e)
    | .ok w => sixtiesFrom (60 * weight) (total + x * w) xs

def float (text : String) : Result Float := do
  let (negative, cs) ← sign (Text.lower (String.ofList (text.toList.filter (· != '_')))).toList
  let x ← if cs = ['.', 'i', 'n', 'f'] then .ok Number.infinity
    else if cs = ['.', 'n', 'a', 'n'] then .ok Number.nan
    else if cs.contains ':' then do
      let parts ← (pieces ':' cs).mapM decimal
      sixtiesFrom 1 0.0 parts.reverse
    else decimal cs
  return if negative then -x else x

/-- The truth value of a word in any case. -/
def truth (text : String) : Result Bool :=
  let word := Text.lower text
  if ["yes", "true", "on"].contains word then .ok true
  else if ["no", "false", "off"].contains word then .ok false
  else escaped .lookup (Text.quoted word)

end Reckoner.Yaml
